import Mathlib.Data.List.Basic
import Mathlib.Data.List.TakeWhile
import LanePadding.Text.Blank
import LanePadding.Text.Integer

/-!
# Texts of integers

A text denotes a 64-bit integer if, between white space, it consists of an optional sign and of at
least one digit (`Text.Spells`).  This grammar says nothing on how such a text is read, and reading
is shown to follow it (`Text.parseInteger_trim_eq_ok_iff`): the white space at the ends is dropped,
which leaves the numeral since a numeral has no white space in it.

## What is here

* `Text.exists_trimChars`, `Text.trimChars_append` — what trimming drops, and what it leaves.
* `Text.Numeral`, `Text.Spells` — the grammar.
* `Text.numeral_integerText` — an integer is written as a numeral that denotes it.
-/

set_option autoImplicit false

namespace LanePadding
namespace Text

/-! ## White space -/

/-- Only white space. -/
def Blank (cs : List Char) : Prop := ∀ c ∈ cs, isBlank c = true

theorem Blank.append {cs cs' : List Char} (h : Blank cs) (h' : Blank cs') : Blank (cs ++ cs') :=
  List.forall_mem_append.2 ⟨h, h'⟩

theorem blank_nil : Blank [] := List.forall_mem_nil _

theorem blank_takeWhile (cs : List Char) :
    Blank (cs.takeWhile isBlank) := fun _ hc => List.mem_takeWhile_imp hc

/-- The ASCII characters past the blank and before the delete character are no white space. -/
theorem isBlank_eq_false {c : Char} (hlow : 33 ≤ c.toNat) (hhigh : c.toNat ≤ 126) :
    isBlank c = false := by
  have houtside : ∀ r ∈ blankRanges, r.2 < 33 ∨ 126 < r.1 := by decide
  rw [isBlank, List.any_eq_false]
  intro r hr
  have := houtside r hr
  simp only [Bool.and_eq_true, decide_eq_true_eq]
  omega

/-- Trimming drops white space at both ends. -/
theorem exists_trimChars (cs : List Char) :
    ∃ before after, Blank before ∧ Blank after ∧ cs = before ++ trimChars cs ++ after := by
  refine ⟨cs.takeWhile isBlank, ((cs.dropWhile isBlank).reverse.takeWhile isBlank).reverse,
    blank_takeWhile cs, fun c hc => blank_takeWhile _ c (List.mem_reverse.1 hc), ?_⟩
  rw [List.append_assoc, trimChars, ← List.reverse_append, List.takeWhile_append_dropWhile,
    List.reverse_reverse, List.takeWhile_append_dropWhile]

theorem dropWhile_isBlank_eq_self {cs : List Char} (h : ∀ c ∈ cs.head?, isBlank c = false) :
    cs.dropWhile isBlank = cs := by
  cases cs with
  | nil => rfl
  | cons c cs => exact List.dropWhile_cons_of_neg (by simp [h c rfl])

theorem trimChars_eq_self {cs : List Char} (h : ∀ c ∈ cs, isBlank c = false) :
    trimChars cs = cs := by
  have hreverse : ∀ c ∈ cs.reverse.head?, isBlank c = false :=
    fun c hc => h c (List.mem_reverse.1 (List.mem_of_mem_head? hc))
  rw [trimChars, dropWhile_isBlank_eq_self fun c hc => h c (List.mem_of_mem_head? hc),
    dropWhile_isBlank_eq_self hreverse, List.reverse_reverse]

/-- Trimming leaves what starts and ends with something else than white space. -/
theorem trimChars_append {before core after : List Char} (hbefore : Blank before)
    (hafter : Blank after) (hne : core ≠ []) (hfirst : ∀ c ∈ core.head?, isBlank c = false)
    (hlast : ∀ c ∈ core.getLast?, isBlank c = false) :
    trimChars (before ++ core ++ after) = core := by
  have hdrop : (core ++ after).dropWhile isBlank = core ++ after :=
    dropWhile_isBlank_eq_self (by rwa [List.head?_append_of_ne_nil _ hne])
  have hreverse : core.reverse.dropWhile isBlank = core.reverse :=
    dropWhile_isBlank_eq_self (by rwa [List.head?_reverse])
  have hafter' : ∀ c ∈ after.reverse, isBlank c = true :=
    fun c hc => hafter c (List.mem_reverse.1 hc)
  rw [trimChars, List.append_assoc, List.dropWhile_append_of_pos hbefore, hdrop,
    List.reverse_append, List.dropWhile_append_of_pos hafter', hreverse, List.reverse_reverse]

/-! ## Numerals -/

/-- At least one digit, and nothing else. -/
def Digits (cs : List Char) : Prop := cs ≠ [] ∧ ∀ c ∈ cs, c.isDigit = true

/-- The characters of an integer in decimal: digits, after an optional sign. -/
inductive Numeral : List Char → Int → Prop
  | plain {cs : List Char} (h : Digits cs) : Numeral cs (Nat.ofDigitChars 10 cs 0)
  | plus {cs : List Char} (h : Digits cs) : Numeral ('+' :: cs) (Nat.ofDigitChars 10 cs 0)
  | minus {cs : List Char} (h : Digits cs) : Numeral ('-' :: cs) (-(Nat.ofDigitChars 10 cs 0 : Nat))

theorem ne_of_isDigit {c l : Char} (hc : c.isDigit = true) (hl : l.isDigit = false) : c ≠ l := by
  rintro rfl
  simp [hc] at hl

theorem naturalOfDigits?_eq_some {cs : List Char} {n : Nat} :
    naturalOfDigits? cs = some n ↔ Digits cs ∧ Nat.ofDigitChars 10 cs 0 = n := by
  simp only [naturalOfDigits?, Digits, List.all_eq_true]
  split
  · rename_i h
    rw [Option.some.injEq]
    exact (and_iff_right h).symm
  · rename_i h
    exact iff_of_false (by simp) fun hd => h hd.1

/-- Digits are read as a number, and nothing else is. -/
theorem map_naturalOfDigits?_eq_some {cs : List Char} {f : Nat → Int} {z : Int} :
    (naturalOfDigits? cs).map f = some z ↔ Digits cs ∧ f (Nat.ofDigitChars 10 cs 0) = z := by
  rw [Option.map_eq_some_iff]
  constructor
  · rintro ⟨n, hn, rfl⟩
    obtain ⟨hdigits, rfl⟩ := naturalOfDigits?_eq_some.1 hn
    exact ⟨hdigits, rfl⟩
  · rintro ⟨hdigits, rfl⟩
    exact ⟨_, naturalOfDigits?_eq_some.2 ⟨hdigits, rfl⟩, rfl⟩

theorem integerOfChars?_plus (cs : List Char) :
    integerOfChars? ('+' :: cs) = (naturalOfDigits? cs).map fun n : Nat => (n : Int) := by
  rw [integerOfChars?]
  cases naturalOfDigits? cs <;> rfl

theorem integerOfChars?_minus (cs : List Char) :
    integerOfChars? ('-' :: cs) = (naturalOfDigits? cs).map fun n : Nat => -(n : Int) := by
  rw [integerOfChars?]
  cases naturalOfDigits? cs <;> rfl

theorem integerOfChars?_plain {cs : List Char} (hplus : ∀ ds, cs ≠ '+' :: ds)
    (hminus : ∀ ds, cs ≠ '-' :: ds) :
    integerOfChars? cs = (naturalOfDigits? cs).map fun n : Nat => (n : Int) := by
  rw [integerOfChars?]
  · cases naturalOfDigits? cs <;> rfl
  · exact hplus
  · exact hminus

/-- **Numerals are read as what they denote**, and nothing else is read. -/
theorem integerOfChars?_eq_some {cs : List Char} {z : Int} :
    integerOfChars? cs = some z ↔ Numeral cs z := by
  constructor
  · intro h
    by_cases hplus : ∃ ds, cs = '+' :: ds
    · obtain ⟨ds, rfl⟩ := hplus
      obtain ⟨hdigits, rfl⟩ := map_naturalOfDigits?_eq_some.1 (integerOfChars?_plus ds ▸ h)
      exact .plus hdigits
    by_cases hminus : ∃ ds, cs = '-' :: ds
    · obtain ⟨ds, rfl⟩ := hminus
      obtain ⟨hdigits, rfl⟩ := map_naturalOfDigits?_eq_some.1 (integerOfChars?_minus ds ▸ h)
      exact .minus hdigits
    · rw [integerOfChars?_plain (not_exists.1 hplus) (not_exists.1 hminus)] at h
      obtain ⟨hdigits, rfl⟩ := map_naturalOfDigits?_eq_some.1 h
      exact .plain hdigits
  · intro h
    cases h with
    | plain h =>
      rw [integerOfChars?_plain]
      · exact map_naturalOfDigits?_eq_some.2 ⟨h, rfl⟩
      · rintro ds rfl
        exact ne_of_isDigit (h.2 '+' List.mem_cons_self) (by decide) rfl
      · rintro ds rfl
        exact ne_of_isDigit (h.2 '-' List.mem_cons_self) (by decide) rfl
    | plus h => exact integerOfChars?_plus _ ▸ map_naturalOfDigits?_eq_some.2 ⟨h, rfl⟩
    | minus h => exact integerOfChars?_minus _ ▸ map_naturalOfDigits?_eq_some.2 ⟨h, rfl⟩

/-- The characters of a numeral. -/
def isNumeralChar (c : Char) : Bool := c.isDigit || c == '+' || c == '-'

theorem isNumeralChar_of_isDigit {c : Char} (h : c.isDigit = true) : isNumeralChar c = true := by
  simp [isNumeralChar, h]

/-- None of them is white space. -/
theorem isBlank_of_isNumeralChar {c : Char} (h : isNumeralChar c = true) : isBlank c = false := by
  have hc : (48 ≤ c.toNat ∧ c.toNat ≤ 57) ∨ c = '+' ∨ c = '-' := by
    simpa [isNumeralChar, Char.isDigit_iff_toNat, or_assoc] using h
  rcases hc with hdigit | rfl | rfl
  · exact isBlank_eq_false (by omega) (by omega)
  · decide
  · decide

theorem Numeral.ne_nil {cs : List Char} {z : Int} (h : Numeral cs z) : cs ≠ [] := by
  cases h with
  | plain h => exact h.1
  | plus h => exact List.cons_ne_nil _ _
  | minus h => exact List.cons_ne_nil _ _

theorem Numeral.isNumeralChar {cs : List Char} {z : Int} (h : Numeral cs z) :
    ∀ c ∈ cs, isNumeralChar c = true := by
  cases h with
  | plain h => exact fun c hc => isNumeralChar_of_isDigit (h.2 c hc)
  | plus h =>
    exact List.forall_mem_cons.2 ⟨by decide, fun c hc => isNumeralChar_of_isDigit (h.2 c hc)⟩
  | minus h =>
    exact List.forall_mem_cons.2 ⟨by decide, fun c hc => isNumeralChar_of_isDigit (h.2 c hc)⟩

theorem Numeral.not_blank {cs : List Char} {z : Int} (h : Numeral cs z) :
    ∀ c ∈ cs, isBlank c = false :=
  fun c hc => isBlank_of_isNumeralChar (h.isNumeralChar c hc)

/-! ## Reading and writing -/

/-- The text of a 64-bit integer: a numeral with white space around. -/
def Spells (cs : List Char) (z : Int) : Prop :=
  ∃ before core after, cs = before ++ core ++ after ∧ Blank before ∧ Blank after ∧ Numeral core z ∧
    -int64End ≤ z ∧ z < int64End

theorem Numeral.spells {cs : List Char} {z : Int} (h : Numeral cs z)
    (hrange : -int64End ≤ z ∧ z < int64End) :
    Spells cs z :=
  ⟨[], cs, [], (List.append_nil cs).symm, blank_nil, blank_nil, h, hrange⟩

theorem Spells.append {before cs after : List Char} {z : Int} (h : Spells cs z)
    (hbefore : Blank before) (hafter : Blank after) : Spells (before ++ cs ++ after) z := by
  obtain ⟨before', core, after', rfl, hbefore', hafter', hcore, hrange⟩ := h
  exact ⟨before ++ before', core, after' ++ after, by simp, hbefore.append hbefore',
    hafter'.append hafter, hcore, hrange⟩

theorem parseInteger_eq_ok {cs : List Char} {z : Int} :
    parseInteger (String.ofList cs) = .ok z ↔ Numeral cs z ∧ -int64End ≤ z ∧ z < int64End := by
  rw [← integerOfChars?_eq_some, parseInteger, String.toList_ofList]
  cases integerOfChars? cs with
  | none => simp
  | some w =>
    simp only [Option.some.injEq]
    split
    · rename_i hw
      rw [Except.ok.injEq]
      exact ⟨fun h => ⟨h, h ▸ hw⟩, And.left⟩
    · rename_i hw
      exact iff_of_false (by simp) fun h => hw (h.1 ▸ h.2)

/-- A numeral is what trimming leaves of its spelling. -/
theorem Numeral.trimChars_append {before core after : List Char} {z : Int} (hcore : Numeral core z)
    (hbefore : Blank before) (hafter : Blank after) : trimChars (before ++ core ++ after) = core :=
  Text.trimChars_append hbefore hafter hcore.ne_nil
    (fun c hc => hcore.not_blank c (List.mem_of_mem_head? hc))
    fun c hc => hcore.not_blank c (List.mem_of_mem_getLast? hc)

/-- **Reading a trimmed text follows the grammar.** -/
theorem parseInteger_trim_eq_ok_iff {cs : List Char} {z : Int} :
    parseInteger (String.ofList (trimChars cs)) = .ok z ↔ Spells cs z := by
  rw [parseInteger_eq_ok]
  constructor
  · rintro ⟨hcore, hrange⟩
    obtain ⟨before, after, hbefore, hafter, hcs⟩ := exists_trimChars cs
    exact ⟨before, trimChars cs, after, hcs, hbefore, hafter, hcore, hrange⟩
  · rintro ⟨before, core, after, rfl, hbefore, hafter, hcore, hrange⟩
    rw [hcore.trimChars_append hbefore hafter]
    exact ⟨hcore, hrange⟩

theorem Spells.trimChars {cs : List Char} {z : Int} (h : Spells cs z) :
    Spells (Text.trimChars cs) z := by
  obtain ⟨before, core, after, rfl, hbefore, hafter, hcore, hrange⟩ := h
  rw [hcore.trimChars_append hbefore hafter]
  exact hcore.spells hrange

theorem digits_toDigits (n : Nat) : Digits (Nat.toDigits 10 n) :=
  ⟨Nat.toDigits_ne_nil, fun _ hc => Nat.isDigit_of_mem_toDigits (by decide) (by decide) hc⟩

/-- An integer is written as a numeral that denotes it. -/
theorem numeral_integerText (z : Int) : Numeral (integerText z).toList z := by
  rw [integerText, String.toList_ofList]
  split
  · have h := Numeral.minus (digits_toDigits z.natAbs)
    rwa [Nat.ofDigitChars_ten_toDigits, show -(z.natAbs : Int) = z by omega] at h
  · have h := Numeral.plain (digits_toDigits z.natAbs)
    rwa [Nat.ofDigitChars_ten_toDigits, show (z.natAbs : Int) = z by omega] at h

theorem spells_integerText {z : Int} (hlow : -int64End ≤ z) (hhigh : z < int64End) :
    Spells (integerText z).toList z :=
  (numeral_integerText z).spells ⟨hlow, hhigh⟩

end Text
end LanePadding
