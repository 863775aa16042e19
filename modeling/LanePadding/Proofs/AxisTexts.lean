import LanePadding.Axis
import LanePadding.Proofs.IntegerTexts

/-!
# Texts of axes

An axis is spelled as the text of its size, or as the texts of its size and its extent with a slash
in between (`Axis.Spelled`).  The reader accepts exactly the spellings of valid axes, and writing an
axis gives one of its spellings (`Axis.parse_text_and_parse_eq_ok_iff`).

The reader trims three times: the whole text, and then the parts on both sides of the first slash.
The grammar has white space only around the numerals.  The two agree because the white space that
the first trim drops stands in front of the first numeral and behind the last one.
-/

set_option autoImplicit false

namespace LanePadding
namespace Axis

open Text

/-! ## The first slash -/

theorem splitSlash_of_not_mem {cs : List Char} (h : '/' ∉ cs) : splitSlash cs = (cs, none) := by
  have hne : ∀ c ∈ cs, decide (c ≠ '/') = true := fun c hc => decide_eq_true fun heq => h (heq ▸ hc)
  rw [splitSlash, List.takeWhile_eq_self_iff.2 hne, List.dropWhile_eq_nil_iff.2 hne]
  rfl

theorem splitSlash_append {before : List Char} (h : '/' ∉ before) (after : List Char) :
    splitSlash (before ++ '/' :: after) = (before, some after) := by
  have hne : ∀ c ∈ before, decide (c ≠ '/') = true :=
    fun c hc => decide_eq_true fun heq => h (heq ▸ hc)
  rw [splitSlash, List.takeWhile_append_of_pos hne, List.dropWhile_append_of_pos hne]
  simp

/-! ## The grammar -/

/-- The spellings of an axis: its size alone stands for an axis without padding lanes. -/
inductive Spelled : List Char → Axis → Prop
  | aligned {cs : List Char} {size : Int} (hsize : Spells cs size) : Spelled cs (Axis.aligned size)
  | padded {before after : List Char} {size extent : Int} (hslash : '/' ∉ before)
      (hsize : Spells before size) (hextent : Spells after extent) : Spelled
      (before ++ '/' :: after) ⟨size, extent⟩

theorem not_slash_of_isBlank {cs : List Char} (h : Blank cs) : '/' ∉ cs := fun hmem =>
  absurd (h _ hmem) (by decide)

theorem not_slash_of_numeral {cs : List Char} {z : Int} (h : Numeral cs z) : '/' ∉ cs := fun hmem =>
  absurd (h.isNumeralChar _ hmem) (by decide)

theorem not_slash_of_spells {cs : List Char} {z : Int} (h : Spells cs z) : '/' ∉ cs := by
  obtain ⟨before, core, after, rfl, hbefore, hafter, hcore, -⟩ := h
  simp [not_slash_of_isBlank hbefore, not_slash_of_isBlank hafter, not_slash_of_numeral hcore]

/-! ## Reading -/

section Reading

variable {text : String} {sizeChars : List Char} {a : Axis}

/-- The last step of the reader. -/
theorem ite_valid_eq_ok {b : Axis} {cause : AxisError} :
    (if b.Valid then Except.ok b else .error cause) = .ok a ↔ b = a ∧ a.Valid := by
  split
  · rename_i hvalid
    rw [Except.ok.injEq]
    exact ⟨fun h => ⟨h, h ▸ hvalid⟩, And.left⟩
  · rename_i hvalid
    exact iff_of_false (by simp) fun h => hvalid (h.1 ▸ h.2)

theorem parse_eq_ok_of_no_slash (hsplit : splitSlash (trimChars text.toList) = (sizeChars, none)) :
    parse text = .ok a ↔ Spells sizeChars a.size ∧ a = Axis.aligned a.size ∧ a.Valid := by
  rw [← parseInteger_trim_eq_ok_iff]
  simp only [parse, hsplit]
  cases parseInteger (String.ofList (trimChars sizeChars)) with
  | error cause => simp
  | ok size =>
    simp only [ite_valid_eq_ok, Except.ok.injEq, ← and_assoc]
    refine and_congr_left fun _ => ⟨?_, ?_⟩
    · rintro rfl
      exact ⟨rfl, rfl⟩
    · rintro ⟨rfl, ha⟩
      exact ha.symm

theorem parse_eq_ok_of_slash {extentChars : List Char}
    (hsplit : splitSlash (trimChars text.toList) = (sizeChars, some extentChars)) :
    parse text = .ok a ↔ Spells sizeChars a.size ∧ Spells extentChars a.extent ∧ a.Valid := by
  rw [← parseInteger_trim_eq_ok_iff, ← parseInteger_trim_eq_ok_iff]
  simp only [parse, hsplit]
  cases parseInteger (String.ofList (trimChars sizeChars)) with
  | error cause => simp
  | ok size =>
    cases parseInteger (String.ofList (trimChars extentChars)) with
    | error cause => simp
    | ok extent =>
      simp only [ite_valid_eq_ok, Except.ok.injEq, ← and_assoc]
      refine and_congr_left fun _ => ⟨?_, ?_⟩
      · rintro rfl
        exact ⟨rfl, rfl⟩
      · rintro ⟨rfl, rfl⟩
        rfl

/-- What is read is spelled. -/
theorem spelled_of_parse (h : parse text = .ok a) : Spelled text.toList a ∧ a.Valid := by
  obtain ⟨before, after, hbefore, hafter, htext⟩ := exists_trimChars text.toList
  by_cases hslash : '/' ∈ trimChars text.toList
  · obtain ⟨sizeChars, extentChars, htrim, hfirst⟩ := List.eq_append_cons_of_mem hslash
    have hsplit := splitSlash_append hfirst extentChars
    rw [← htrim] at hsplit
    obtain ⟨hsize, hextent, hvalid⟩ := (parse_eq_ok_of_slash hsplit).1 h
    have hsize := hsize.append hbefore blank_nil
    have hextent := hextent.append blank_nil hafter
    have hspelled := Spelled.padded (not_slash_of_spells hsize) hsize hextent
    refine ⟨?_, hvalid⟩
    rw [htext, htrim]
    simpa using hspelled
  · obtain ⟨hsize, ha, hvalid⟩ := (parse_eq_ok_of_no_slash (splitSlash_of_not_mem hslash)).1 h
    refine ⟨?_, hvalid⟩
    rw [htext, ha]
    exact .aligned (hsize.append hbefore hafter)

/-- Trimming a spelling with a slash keeps the numerals and all that stands between them. -/
theorem trimChars_slash {before after : List Char} {size extent : Int} (hsize : Spells before size)
    (hextent : Spells after extent) :
    ∃ before' after', trimChars (before ++ '/' :: after) = before' ++ '/' :: after' ∧
      Spells before' size ∧
      Spells after' extent := by
  obtain ⟨blanks, core, rest, rfl, hblanks, hrest, hcore, hrange⟩ := hsize
  obtain ⟨rest', core', blanks', rfl, hrest', hblanks', hcore', hrange'⟩ := hextent
  refine ⟨core ++ rest, rest' ++ core', ?_, ⟨[], core, rest, rfl, blank_nil, hrest, hcore, hrange⟩,
    ⟨rest', core', [], by simp, hrest', blank_nil, hcore', hrange'⟩⟩
  have hparts : blanks ++ core ++ rest ++ '/' :: (rest' ++ core' ++ blanks') =
      blanks ++ (core ++ rest ++ '/' :: (rest' ++ core')) ++ blanks' := by
    simp
  rw [hparts]
  refine trimChars_append hblanks hblanks' (by simp) (fun c hc => hcore.not_blank c ?_) fun c hc =>
    hcore'.not_blank c ?_
  · rw [List.append_assoc, List.head?_append_of_ne_nil _ hcore.ne_nil] at hc
    exact List.mem_of_mem_head? hc
  · rw [← List.cons_append, ← List.append_assoc,
      List.getLast?_append_of_ne_nil _ hcore'.ne_nil] at hc
    exact List.mem_of_mem_getLast? hc

/-- What is spelled is read. -/
theorem Spelled.parse (h : Spelled text.toList a) (hvalid : a.Valid) : Axis.parse text = .ok a := by
  generalize hcs : text.toList = cs at h
  cases h with
  | aligned hsize =>
    have hcore := hsize.trimChars
    have hsplit := splitSlash_of_not_mem (not_slash_of_spells hcore)
    rw [← hcs] at hsplit hcore
    exact (parse_eq_ok_of_no_slash hsplit).2 ⟨hcore, rfl, hvalid⟩
  | padded _ hsize hextent =>
    obtain ⟨before, after, htrim, hbefore, hafter⟩ := trimChars_slash hsize hextent
    have hsplit := splitSlash_append (not_slash_of_spells hbefore) after
    rw [← htrim, ← hcs] at hsplit
    exact (parse_eq_ok_of_slash hsplit).2 ⟨hbefore, hafter, hvalid⟩

end Reading

/-! ## Writing -/

/-- An axis is written as one of its spellings. -/
theorem spelled_text {a : Axis} (hvalid : a.Valid) (hsize : a.size < int64End) :
    Spelled a.text.toList a := by
  obtain ⟨hpositive, hle⟩ := hvalid
  have hend : 0 < int64End := by decide
  have hsizeText := spells_integerText (show -int64End ≤ a.size by omega) hsize
  have hextentText := spells_integerText (show -int64End ≤ a.extent by omega)
    (show a.extent < int64End by omega)
  rw [Axis.text]
  split
  · have hspelled := Spelled.padded (not_slash_of_spells hsizeText) hsizeText hextentText
    simpa using hspelled
  · rename_i hpadded
    have heq : a.extent = a.size := by
      simp only [isPadded, decide_eq_true_eq] at hpadded
      omega
    have hspelled := Spelled.aligned hsizeText
    rwa [show Axis.aligned a.size = a from congrArg (Axis.mk a.size) heq.symm] at hspelled

/-- **Axis texts round-trip, and exactly the grammar is read.**  A valid axis below `2^63` is read
back from its own text; and a text is read as an axis if and only if it spells this axis and the
axis is valid. -/
theorem parse_text_and_parse_eq_ok_iff :
    (∀ a : Axis, a.Valid → a.size < int64End → parse a.text = .ok a) ∧
      ∀ (text : String) (a : Axis), parse text = .ok a ↔ Spelled text.toList a ∧ a.Valid :=
  ⟨fun _ hvalid hsize => (spelled_text hvalid hsize).parse hvalid,
    fun _ _ => ⟨spelled_of_parse, fun h => h.1.parse h.2⟩⟩

/-- The text of an axis of 15 lanes in 16, and another spelling of it: with a tab, an ideographic
space, a sign and leading zeros. -/
theorem parse_text_fifteen_of_sixteen :
    parse (Axis.text ⟨16, 15⟩) = .ok ⟨16, 15⟩ ∧ Spelled "\t+016 /\u3000 15".toList ⟨16, 15⟩ :=
  ⟨parse_text_and_parse_eq_ok_iff.1 ⟨16, 15⟩ (by decide) (by decide),
    ((parse_text_and_parse_eq_ok_iff.2 "\t+016 /\u3000 15" ⟨16, 15⟩).1 (by decide)).1⟩

end Axis
end LanePadding
