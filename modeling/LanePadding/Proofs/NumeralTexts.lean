import Mathlib.Tactic.IntervalCases
import LanePadding.Proofs.Decimals
import LanePadding.Proofs.IntegerTexts

/-!
# Numerals and the numbers that they denote

A decimal numeral consists of digits, possibly with a point among them and an exponent behind them
(`DecimalNumeral`).  Reading it gives the double nearest to the decimal that it denotes
(`DecimalNumeral.parseUnsigned`).  Every layout of the digits of a decimal is such a numeral
(`exists_numeral_place`), so a double is read back from its text (`Double.parse_toText`).

Nothing is assumed about the digits that are written: that they are rounded to the number itself was
tested when they were looked for.

## What is here

* `scanMantissa_pointed`, `parseExponent_sign` — the scanners on well-formed texts.
* `DecimalNumeral` — the numerals that are written, with the decimals that they denote.
* `Double.parse_toText` — every double, also the infinities and the NaN, is read back from its text.
* `Double.parse_integerText` — an integer up to `2^53` in size is read as the double that it is.
-/

set_option autoImplicit false

namespace LanePadding
namespace Number

open Text

/-! ## Characters -/

/-- The characters of decimal numerals. -/
def numeralChars : List Char :=
  ['0', '1', '2', '3', '4', '5', '6', '7', '8', '9', '.', 'e', '+', '-']

theorem mem_numeralChars_of_isDigit {c : Char} (h : c.isDigit = true) : c ∈ numeralChars := by
  obtain ⟨hlow, hhigh⟩ := Char.isDigit_iff_toNat.1 h
  rw [← Char.ofNat_toNat c]
  generalize c.toNat = n at hlow hhigh
  change 48 ≤ n at hlow
  change n ≤ 57 at hhigh
  interval_cases n <;> decide

theorem asciiLower_of_mem_numeralChars : ∀ c ∈ numeralChars, asciiLower c = c := by
  simp [numeralChars, asciiLower]

/-- A word with another letter in it is not a numeral in any letter case. -/
theorem map_asciiLower_ne {cs word : List Char} (hcs : ∀ c ∈ cs, c ∈ numeralChars) {l : Char}
    (hl : l ∈ word) (hletter : l ∉ numeralChars) : cs.map asciiLower ≠ word := by
  rintro rfl
  obtain ⟨c, hc, rfl⟩ := List.mem_map.1 hl
  rw [asciiLower_of_mem_numeralChars c (hcs c hc)] at hletter
  exact hletter (hcs c hc)

theorem decimalDigit?_of_isDigit {c : Char} (h : c.isDigit = true) :
    decimalDigit? c = some (c.toNat - '0'.toNat) := by
  obtain ⟨hlow, hhigh⟩ := Char.isDigit_iff_toNat.1 h
  exact if_pos ⟨UInt32.le_iff_toNat_le.2 hlow, UInt32.le_iff_toNat_le.2 hhigh⟩

/-! ## Scanning -/

/-- Digits go into the value, and behind the point they are counted. -/
theorem scanMantissa_digits {ds : List Char} (h : ∀ c ∈ ds, c.isDigit = true) (value fraction : Nat)
    (seenDigit seenPoint : Bool) (rest : List Char) :
    scanMantissa 10 decimalDigit? value fraction seenDigit seenPoint (ds ++ rest) =
      scanMantissa 10 decimalDigit? (Nat.ofDigitChars 10 ds value)
        (if seenPoint then fraction + ds.length else fraction)
        (seenDigit || !ds.isEmpty) seenPoint rest := by
  induction ds generalizing value fraction seenDigit with
  | nil => simp
  | cons c ds ih =>
    obtain ⟨hc, hds⟩ := List.forall_mem_cons.1 h
    have hunderscore : c ≠ '_' := ne_of_isDigit hc (by decide)
    have hpoint : c ≠ '.' := ne_of_isDigit hc (by decide)
    rw [List.cons_append, scanMantissa, if_neg hunderscore, if_neg hpoint]
    simp only [decimalDigit?_of_isDigit hc, ih hds, Nat.ofDigitChars_cons, Nat.mul_comm value]
    cases seenPoint <;> simp [Nat.add_assoc, Nat.add_comm 1]

/-- Digits with a point in front of the fractional ones, if there are any. -/
def pointed (whole fraction : List Char) :
    List Char := whole ++ if fraction = [] then [] else '.' :: fraction

/-- What ends the digits of a mantissa. -/
def Stops (rest : List Char) : Prop :=
  ∀ value fraction seenDigit seenPoint,
    scanMantissa 10 decimalDigit? value fraction seenDigit seenPoint rest =
      ⟨value, fraction, seenDigit, rest⟩

theorem stops_nil : Stops [] := fun _ _ _ _ => rfl

theorem stops_exponent (cs : List Char) : Stops ('e' :: cs) := fun _ _ _ _ => rfl

theorem scanMantissa_pointed {whole fraction rest : List Char} (hwhole : Digits whole)
    (hfraction : ∀ c ∈ fraction, c.isDigit = true) (hrest : Stops rest) :
    scanMantissa 10 decimalDigit? 0 0 false false (pointed whole fraction ++ rest) =
      ⟨Nat.ofDigitChars 10 (whole ++ fraction) 0, fraction.length, true, rest⟩ := by
  have hne : whole.isEmpty = false := List.isEmpty_eq_false_iff.2 hwhole.1
  rw [pointed, List.append_assoc, scanMantissa_digits hwhole.2, hne, Nat.ofDigitChars_append]
  by_cases hempty : fraction = []
  · rw [if_pos hempty, hempty]
    exact hrest _ _ _ _
  · have hpoint : ('.' : Char) ≠ '_' := by decide
    rw [if_neg hempty, List.cons_append, scanMantissa, if_neg hpoint, if_pos rfl,
      if_neg Bool.false_ne_true, scanMantissa_digits hfraction, hrest]
    simp

theorem le_ofDigitChars (ds : List Char) (value : Nat) : value ≤ Nat.ofDigitChars 10 ds value := by
  rw [Nat.ofDigitChars_eq_ofDigitChars_zero]
  exact Nat.le_trans (Nat.le_mul_of_pos_left value (Nat.pow_pos (by decide))) (Nat.le_add_right _ _)

/-- Exponents of up to five digits are read in full. -/
theorem scanExponent_digits {ds : List Char} (h : ∀ c ∈ ds, c.isDigit = true) {value : Nat}
    (hsmall : Nat.ofDigitChars 10 ds value < 100000) :
    scanExponent value ds = some (Nat.ofDigitChars 10 ds value) := by
  induction ds generalizing value with
  | nil => rfl
  | cons c ds ih =>
    obtain ⟨hc, hds⟩ := List.forall_mem_cons.1 h
    have hunderscore : c ≠ '_' := ne_of_isDigit hc (by decide)
    rw [Nat.ofDigitChars_cons] at hsmall ⊢
    have hvalue : value < 10000 := by
      have := le_ofDigitChars ds (10 * value + (c.toNat - '0'.toNat))
      omega
    rw [scanExponent, if_neg hunderscore]
    simp only [decimalDigit?_of_isDigit hc, if_pos hvalue, Nat.mul_comm value, ih hds hsmall]

/-- The value of an exponent with a sign. -/
def signedExponent (negative : Bool) (n : Nat) : Int := if negative then -(n : Int) else n

theorem parseExponent_sign (negative : Bool) {ds : List Char} (h : Digits ds)
    (hsmall : Nat.ofDigitChars 10 ds 0 < 100000) :
    parseExponent ((if negative then '-' else '+') :: ds) =
      some (signedExponent negative (Nat.ofDigitChars 10 ds 0)) := by
  obtain ⟨hne, hdigits⟩ := h
  have hscan := scanExponent_digits hdigits hsmall
  cases ds with
  | nil => exact absurd rfl hne
  | cons c cs =>
    have hfirst : (decimalDigit? c).isSome = true := by
      rw [decimalDigit?_of_isDigit (hdigits c List.mem_cons_self)]
      rfl
    cases negative <;> simp [parseExponent, hfirst, hscan, signedExponent]

theorem isDigit_of_mem_replicate {n : Nat} {c : Char} (h : c ∈ List.replicate n '0') :
    c.isDigit = true := by
  obtain rfl := List.eq_of_mem_replicate h
  decide

theorem digits_paddedDigits (length n : Nat) : Digits (paddedDigits length n) := by
  obtain ⟨hne, hdigits⟩ := digits_toDigits n
  exact ⟨fun h => hne (List.append_eq_nil_iff.1 h).2,
    List.forall_mem_append.2 ⟨fun _ => isDigit_of_mem_replicate, hdigits⟩⟩

theorem ofDigitChars_paddedDigits (length n : Nat) :
    Nat.ofDigitChars 10 (paddedDigits length n) 0 = n := by
  rw [paddedDigits, Nat.ofDigitChars_append, Nat.ofDigitChars_replicate_zero, Nat.mul_zero,
    Nat.ofDigitChars_ten_toDigits]

/-! ## Underscores -/

theorem underscoresSeparate_of_not_mem (isDigit : Char → Bool) {cs : List Char} (h : '_' ∉ cs)
    {before : Option Bool} (hbefore : before ≠ some false) :
    underscoresSeparate isDigit before cs = true := by
  induction cs generalizing before with
  | nil => simpa [underscoresSeparate] using hbefore
  | cons c cs ih =>
    obtain ⟨hc, hcs⟩ := not_or.1 (mt List.mem_cons.2 h)
    rw [underscoresSeparate]
    split
    · exact ih hcs (by simp)
    · rw [if_neg (Ne.symm hc), ih hcs (by simp), Bool.and_true]
      simpa using hbefore

theorem underscoresAllowed_of_not_mem {cs : List Char} (h : '_' ∉ cs) :
    underscoresAllowed cs = true := by
  unfold underscoresAllowed
  split
  · rename_i m rest
    have hrest : '_' ∉ rest := fun hmem => h (List.mem_cons_of_mem _ (List.mem_cons_of_mem _ hmem))
    split
    · exact underscoresSeparate_of_not_mem _ hrest (by simp)
    split
    · exact underscoresSeparate_of_not_mem _ hrest (by simp)
    · exact underscoresSeparate_of_not_mem _ h (by simp)
  · exact underscoresSeparate_of_not_mem _ h (by simp)

/-! ## Decimal numerals -/

/-- The decimal numerals that are written, and what they denote. -/
inductive DecimalNumeral : List Char → Decimal → Prop
  | positional {whole fraction : List Char} (hwhole : Digits whole)
      (hfraction : ∀ c ∈ fraction, c.isDigit = true) :
      DecimalNumeral (pointed whole fraction)
        ⟨Nat.ofDigitChars 10 (whole ++ fraction) 0, 0 - fraction.length⟩
  | scientific {whole fraction exponent : List Char} (negative : Bool) (hwhole : Digits whole)
      (hfraction : ∀ c ∈ fraction, c.isDigit = true) (hexponent : Digits exponent)
      (hsmall : Nat.ofDigitChars 10 exponent 0 < 100000) :
      DecimalNumeral (pointed whole fraction ++ 'e' :: (if negative then '-' else '+') :: exponent)
        ⟨Nat.ofDigitChars 10 (whole ++ fraction) 0,
          signedExponent negative (Nat.ofDigitChars 10 exponent 0) - fraction.length⟩

/-- A text of the characters of numerals is read as a numeral. -/
theorem parseUnsigned_eq_parseDecimal (s : Bool) {cs : List Char} (h : ∀ c ∈ cs, c ∈ numeralChars) :
    parseUnsigned s cs = parseDecimal s cs := by
  have hinf : ¬ (cs.map asciiLower = ['i', 'n', 'f'] ∨ cs.map asciiLower = "infinity".toList) :=
    not_or.2 ⟨map_asciiLower_ne h (l := 'i') (by decide) (by decide),
      map_asciiLower_ne h (l := 'i') (by decide) (by decide)⟩
  have hunderscore : '_' ∉ cs := fun hmem => absurd (h _ hmem) (by decide)
  unfold parseUnsigned
  simp only [if_neg hinf, underscoresAllowed_of_not_mem hunderscore, Bool.not_true,
    Bool.false_eq_true, if_false]
  split
  · rename_i x c rest
    have hx : x ∈ numeralChars := h x (by simp)
    rw [asciiLower_of_mem_numeralChars x hx]
    refine if_neg ?_
    rintro rfl
    exact absurd hx (by decide)
  · rfl

namespace DecimalNumeral

variable {cs : List Char} {d : Decimal}

theorem mem_numeralChars_pointed {whole fraction : List Char} (hwhole : Digits whole)
    (hfraction : ∀ c ∈ fraction, c.isDigit = true) :
    ∀ c ∈ pointed whole fraction, c ∈ numeralChars := by
  refine List.forall_mem_append.2 ⟨fun c hc => mem_numeralChars_of_isDigit (hwhole.2 c hc), ?_⟩
  split
  · exact List.forall_mem_nil _
  · exact List.forall_mem_cons.2
      ⟨by decide, fun c hc => mem_numeralChars_of_isDigit (hfraction c hc)⟩

theorem mem_numeralChars (h : DecimalNumeral cs d) : ∀ c ∈ cs, c ∈ numeralChars := by
  cases h with
  | positional hwhole hfraction => exact mem_numeralChars_pointed hwhole hfraction
  | scientific negative hwhole hfraction hexponent hsmall =>
    refine List.forall_mem_append.2
      ⟨mem_numeralChars_pointed hwhole hfraction, List.forall_mem_cons.2 ⟨by decide,
      List.forall_mem_cons.2 ⟨?_, fun c hc => mem_numeralChars_of_isDigit (hexponent.2 c hc)⟩⟩⟩
    cases negative <;> decide

/-- A numeral starts with a digit. -/
theorem exists_cons (h : DecimalNumeral cs d) : ∃ c rest, cs = c :: rest ∧ c.isDigit = true := by
  have hstart : ∀ {whole : List Char}, Digits whole →
      ∀ rest, ∃ c rest', whole ++ rest = c :: rest' ∧ c.isDigit = true := by
    intro whole hwhole rest
    obtain ⟨c, cs, rfl⟩ := List.exists_cons_of_ne_nil hwhole.1
    exact ⟨c, cs ++ rest, rfl, hwhole.2 c List.mem_cons_self⟩
  cases h with
  | positional hwhole hfraction => exact hstart hwhole _
  | scientific negative hwhole hfraction hexponent hsmall =>
    rw [pointed, List.append_assoc]
    exact hstart hwhole _

/-- **Reading a numeral gives the double nearest to what it denotes.** -/
theorem parseUnsigned (h : DecimalNumeral cs d) (s : Bool) :
    Number.parseUnsigned s cs = finiteOrRange (d.toDouble s) := by
  rw [parseUnsigned_eq_parseDecimal s h.mem_numeralChars]
  cases h with
  | positional hwhole hfraction =>
    have hscan := scanMantissa_pointed hwhole hfraction stops_nil
    rw [List.append_nil] at hscan
    simp only [parseDecimal, hscan]
  | @scientific whole fraction exponent negative hwhole hfraction hexponent hsmall =>
    have hscan := scanMantissa_pointed hwhole hfraction
      (stops_exponent ((if negative then '-' else '+') :: exponent))
    simp only [parseDecimal, hscan, parseExponent_sign negative hexponent hsmall]
    rfl

end DecimalNumeral

/-! ## Layouts -/

section Layout

variable {ds : List Char} {c : Nat} {e : Int} (hdigits : Digits ds)
  (hvalue : Nat.ofDigitChars 10 ds 0 = c)

include hdigits

theorem digits_take {n : Nat} (hn : 0 < n) : Digits (ds.take n) := by
  refine ⟨fun h => ?_, fun c hc => hdigits.2 c (List.mem_of_mem_take hc)⟩
  rcases List.take_eq_nil_iff.1 h with hzero | hnil
  · omega
  · exact hdigits.1 hnil

theorem isDigit_of_mem_drop (n : Nat) : ∀ c ∈ ds.drop n, c.isDigit = true :=
  fun c hc => hdigits.2 c (List.mem_of_mem_drop hc)

include hvalue

/-- One digit in front of the point, the others behind it, and the exponent of the first one. -/
theorem numeral_scientific (length : Nat) (hsmall : (e + ds.length - 1).natAbs < 100000) :
    DecimalNumeral (pointed (ds.take 1) (ds.drop 1) ++ 'e' ::
      (if e + ds.length - 1 < 0 then '-' else '+') ::
      paddedDigits length (e + ds.length - 1).natAbs) ⟨c, e⟩ := by
  have hpos : 0 < ds.length := List.length_pos_iff.2 hdigits.1
  have hnumeral := DecimalNumeral.scientific (decide (e + ds.length - 1 < 0))
    (digits_take hdigits Nat.one_pos) (isDigit_of_mem_drop hdigits 1)
    (digits_paddedDigits length (e + ds.length - 1).natAbs) (by rwa [ofDigitChars_paddedDigits])
  have hexponent : signedExponent (decide (e + ds.length - 1 < 0)) (e + ds.length - 1).natAbs -
      (ds.length - 1 : Nat) =
        e := by
    simp only [signedExponent, decide_eq_true_eq]
    split <;> omega
  rw [List.take_append_drop, hvalue, ofDigitChars_paddedDigits, List.length_drop,
    hexponent] at hnumeral
  simpa only [decide_eq_true_eq] using hnumeral

/-- Zeros between the point and the digits. -/
theorem numeral_below_one (hneg : e + ds.length - 1 < 0) :
    DecimalNumeral (pointed ['0'] (List.replicate ((e + ds.length - 1).natAbs - 1) '0' ++ ds))
      ⟨c, e⟩ := by
  have hwhole : Digits ['0'] := ⟨by simp, by simp⟩
  have hfraction : ∀ d ∈ List.replicate ((e + ds.length - 1).natAbs - 1) '0' ++ ds,
      d.isDigit = true :=
    List.forall_mem_append.2 ⟨fun _ => isDigit_of_mem_replicate, hdigits.2⟩
  have hnumeral := DecimalNumeral.positional hwhole hfraction
  have hexponent : 0 - (((e + ds.length - 1).natAbs - 1 + ds.length : Nat) : Int) = e := by omega
  rw [List.singleton_append, Nat.ofDigitChars_cons, Nat.ofDigitChars_append,
    Nat.ofDigitChars_replicate_zero, List.length_append, List.length_replicate,
    hexponent] at hnumeral
  simpa [hvalue] using hnumeral

/-- The point among the digits. -/
theorem numeral_pointed (n : Nat) (hn : 0 < n) (hlength : n ≤ ds.length) (he : e + ds.length = n) :
    DecimalNumeral (pointed (ds.take n) (ds.drop n)) ⟨c, e⟩ := by
  have hnumeral := DecimalNumeral.positional (digits_take hdigits hn)
    (isDigit_of_mem_drop hdigits n)
  have hexponent : 0 - ((ds.length - n : Nat) : Int) = e := by omega
  rwa [List.take_append_drop, hvalue, List.length_drop, hexponent] at hnumeral

/-- Zeros behind the digits. -/
theorem numeral_integral (n : Nat) :
    DecimalNumeral (pointed (ds ++ List.replicate n '0') []) ⟨c * tenPow n, 0⟩ := by
  have hwhole : Digits (ds ++ List.replicate n '0') :=
    ⟨fun h => hdigits.1 (List.append_eq_nil_iff.1 h).1,
      List.forall_mem_append.2 ⟨hdigits.2, fun _ => isDigit_of_mem_replicate⟩⟩
  have hnumeral := DecimalNumeral.positional hwhole (List.forall_mem_nil _)
  rw [List.append_nil, Nat.ofDigitChars_append, Nat.ofDigitChars_replicate_zero, hvalue,
    Nat.mul_comm] at hnumeral
  exact hnumeral

end Layout

/-- Digits alone. -/
theorem numeral_toDigits (n : Nat) : DecimalNumeral (Nat.toDigits 10 n) ⟨n, 0⟩ := by
  have hnumeral := numeral_integral (digits_toDigits n) Nat.ofDigitChars_ten_toDigits 0
  rwa [List.replicate_zero, List.append_nil, pointed, if_pos rfl, List.append_nil, tenPow_zero,
    Nat.mul_one] at hnumeral

/-- **Every layout of the digits of a decimal is a numeral for it**, unless the exponent has more
than five digits. -/
theorem exists_numeral_place (layout : DecimalLayout) (d : Decimal)
    (hsmall : (d.exponent + Decimal.digitCount d.coefficient - 1).natAbs < 100000) :
    ∃ d', DecimalNumeral (layout.place (Nat.toDigits 10 d.coefficient)
      (d.exponent + Decimal.digitCount d.coefficient - 1)) d' ∧ ∀ s, d'.toDouble s =
        d.toDouble s := by
  obtain ⟨c, e⟩ := d
  dsimp only at *
  have hdigits := digits_toDigits c
  have hvalue : Nat.ofDigitChars 10 (Nat.toDigits 10 c) 0 = c := Nat.ofDigitChars_ten_toDigits
  have hpos := Decimal.digitCount_pos c
  rw [Decimal.digitCount] at *
  generalize Nat.toDigits 10 c = ds at *
  unfold DecimalLayout.place
  split
  · refine ⟨⟨c, e⟩, ?_, fun _ => rfl⟩
    simpa [pointed] using numeral_scientific hdigits hvalue layout.exponentDigits hsmall
  split
  · rename_i hneg
    refine ⟨⟨c, e⟩, ?_, fun _ => rfl⟩
    simpa [pointed, hdigits.1] using numeral_below_one hdigits hvalue hneg
  · rename_i hnonneg
    obtain ⟨n, hn⟩ : ∃ n : Nat, e + ds.length - 1 = n := ⟨_, (Int.toNat_of_nonneg (by omega)).symm⟩
    rw [hn, Int.toNat_natCast]
    rcases Nat.lt_or_ge ds.length (n + 1) with hshort | hlong
    · -- the digits end before the units, and what is written is another decimal with the same value
      refine ⟨⟨c * tenPow (n + 1 - ds.length), 0⟩, ?_, fun s => ?_⟩
      · have hnumeral := numeral_integral hdigits hvalue (n + 1 - ds.length)
        simpa [pointed, List.drop_eq_nil_of_le hshort.le, List.take_of_length_le hshort.le]
          using hnumeral
      · rw [← Decimal.toDouble_shift s c e (n + 1 - ds.length),
          show e - (n + 1 - ds.length : Nat) = 0 by omega]
    · refine ⟨⟨c, e⟩, ?_, fun _ => rfl⟩
      have hnumeral := numeral_pointed hdigits hvalue (n + 1) (Nat.succ_pos n) hlong
        (e := e) (by omega)
      simpa [pointed, Nat.sub_eq_zero_of_le hlong] using hnumeral

/-! ## Round trips -/

/-- A numeral with its sign. -/
def withSign (negative : Bool) (cs : List Char) : List Char := if negative then '-' :: cs else cs

theorem DecimalNumeral.mem_numeralChars_withSign {cs : List Char} {d : Decimal}
    (h : DecimalNumeral cs d) (s : Bool) :
    ∀ c ∈ withSign s cs, c ∈ numeralChars := by
  cases s with
  | false => exact h.mem_numeralChars
  | true => exact List.forall_mem_cons.2 ⟨by decide, h.mem_numeralChars⟩

theorem integerText_eq_withSign (z : Int) :
    integerText z = String.ofList (withSign (z < 0) (Nat.toDigits 10 z.natAbs)) := by
  simp only [integerText, withSign, decide_eq_true_eq]
  split <;> rfl

namespace Double

/-- **A numeral with its sign is read as what it denotes.** -/
theorem parse_withSign {cs : List Char} {d : Decimal} (h : DecimalNumeral cs d) (s : Bool) :
    parse (String.ofList (withSign s cs)) = finiteOrRange (d.toDouble s) := by
  rw [← h.parseUnsigned s, parse, String.toList_ofList, withSign]
  cases s with
  | true => rfl
  | false =>
    have hnan : cs.map asciiLower ≠ ['n', 'a', 'n'] :=
      map_asciiLower_ne h.mem_numeralChars (l := 'n') (by decide) (by decide)
    obtain ⟨c, rest, rfl, hc⟩ := h.exists_cons
    rw [if_neg Bool.false_ne_true]
    split
    · rename_i heq
      exact absurd (List.cons.inj heq).1 (ne_of_isDigit hc (by decide))
    · rename_i heq
      exact absurd (List.cons.inj heq).1 (ne_of_isDigit hc (by decide))
    · exact if_neg hnan

/-- The text of a finite number is a numeral for it. -/
theorem exists_numeral_toText (s : Bool) {q : Nat} (hq : Format.double.Fits q) :
    ∃ cs d, (fin s q hq).toText = String.ofList (withSign s cs) ∧ DecimalNumeral cs d ∧
      d.toDouble s = fin s q hq := by
  by_cases hzero : q = 0
  · subst hzero
    refine ⟨['0'], ⟨0, 0⟩, rfl, numeral_toDigits 0, ?_⟩
    rw [Decimal.toDouble_eq, Nat.zero_mul, Nat.zero_mul, Format.round_zero]
    rfl
  · have hshortest := Decimal.toDouble_shortest s hq
    obtain ⟨hlow, hhigh⟩ := Decimal.leading_bounds hshortest hzero
    obtain ⟨d, hnumeral, hd⟩ := exists_numeral_place .standard (Decimal.shortest q) (by omega)
    refine ⟨_, d, ?_, hnumeral, (hd s).trans hshortest⟩
    simp only [toText, if_neg hzero, withSign]
    rfl

/-- **Every number is read back from its text.** -/
theorem parse_toText (v : Double) : parse v.toText = .ok v := by
  cases v with
  | nan => decide
  | inf s => cases s <;> decide
  | fin s q hq =>
    obtain ⟨cs, d, htext, hnumeral, hd⟩ := exists_numeral_toText s hq
    rw [htext, parse_withSign hnumeral, hd]
    rfl

/-- **An integer is read as the double nearest to it.** -/
theorem parse_integerText {z : Int} (hz : z.natAbs ≤ twoPow 53) :
    parse (integerText z) = .ok (ofInt z) := by
  have hdouble : Decimal.toDouble (decide (z < 0)) ⟨z.natAbs, 0⟩ = ofInt z := by
    rw [Decimal.toDouble_eq, ofInt, Int.toNat_zero, Int.neg_zero, Int.toNat_zero,
      tenPow_zero, Nat.mul_one]
  rw [integerText_eq_withSign, parse_withSign (numeral_toDigits z.natAbs), hdouble, ofInt_eq_fin hz]
  rfl

end Double
end Number
end LanePadding
