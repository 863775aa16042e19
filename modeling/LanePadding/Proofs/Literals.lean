import LanePadding.Scalar.Literal
import LanePadding.Proofs.IntegerArithmetic
import LanePadding.Proofs.NumeralTexts
import LanePadding.Proofs.Transfer

/-!
# Literals round-trip

A value of an element type is written as a word, as a plain integer or with the shortest digits that
read back, and in each case it is read back as an equal value (`DType.parseLiteral_valueText`).  The
texts of numbers go past the words of the reader because none of them is spelled with the characters
of numerals (`ReadsAsNumber`).  In the other direction, whatever is read is a value of the element
type: numbers are rounded to it, and the limits and truth values that the words stand for need no
rounding.
-/

set_option autoImplicit false

namespace LanePadding

open Number

theorem Number.Double.key_abs (v : Double) : v.abs.key = v.key.natAbs := by
  cases v with
  | nan => rfl
  | inf s | fin s q hq =>
    cases s <;> simp only [Double.abs, Double.key, Bool.false_eq_true, if_false, if_true,
      Int.natAbs_neg, Int.natAbs_natCast]

/-! ## Words and numbers -/

/-- The words that stand for a value. -/
def literalWords : List String := ["min", "lowest", "max", "highest", "true", "false"]

/-- The text is read as a number: there is no white space to trim, and it is not one of the
words. -/
structure ReadsAsNumber (text : String) : Prop where
  trim_eq : Text.trim text = text
  not_word : Text.lower text ∉ literalWords

/-- None of the characters of numerals is white space or an upper-case letter. -/
theorem numeralChars_plain {c : Char} (h : c ∈ numeralChars) :
    Text.isBlank c = false ∧ Text.lowerChar c = c := by
  have hall : numeralChars.all (fun c => !Text.isBlank c && Text.lowerChar c == c) = true := by
    decide
  simpa using List.all_eq_true.1 hall c h

theorem readsAsNumber_of_numeralChars {cs : List Char} (h : ∀ c ∈ cs, c ∈ numeralChars) :
    ReadsAsNumber (String.ofList cs) := by
  have hlower : Text.lower (String.ofList cs) = String.ofList cs := by
    rw [← String.toList_inj, Text.lower, String.toList_map, String.toList_ofList]
    exact (List.map_congr_left fun c hc => (numeralChars_plain (h c hc)).2).trans (List.map_id cs)
  constructor
  · rw [Text.trim, String.toList_ofList, Text.trimChars_eq_self fun c hc =>
      (numeralChars_plain (h c hc)).1]
  · intro hword
    have hwords : literalWords.all (fun w => !w.toList.all (numeralChars.contains ·)) = true := by
      decide
    have hother := List.all_eq_true.1 hwords _ hword
    rw [hlower, String.toList_ofList, Bool.not_eq_true', List.all_eq_false] at hother
    obtain ⟨c, hc, hletter⟩ := hother
    exact hletter (List.contains_iff_mem.2 (h c hc))

theorem readsAsNumber_toText (v : Double) : ReadsAsNumber v.toText := by
  cases v with
  | nan => exact ⟨by decide +kernel, by decide +kernel⟩
  | inf s => cases s <;> exact ⟨by decide +kernel, by decide +kernel⟩
  | fin s q hq =>
    obtain ⟨cs, d, htext, hnumeral, -⟩ := Double.exists_numeral_toText s hq
    rw [htext]
    exact readsAsNumber_of_numeralChars (hnumeral.mem_numeralChars_withSign s)

theorem readsAsNumber_integerText (z : Int) : ReadsAsNumber (Text.integerText z) := by
  rw [integerText_eq_withSign]
  exact readsAsNumber_of_numeralChars ((numeral_toDigits z.natAbs).mem_numeralChars_withSign _)

namespace DType

variable {d : DType} {u v : Double}

/-- The value of a literal that is a number. -/
theorem parseLiteral_of_parse {text : String} (hd : d.isSupported = true) (h : ReadsAsNumber text)
    (hparse : Double.parse text = .ok v) : d.parseLiteral text = .ok (d.round v) := by
  have hword := h.not_word
  simp only [literalWords, List.mem_cons, List.not_mem_nil, or_false, not_or] at hword
  obtain ⟨hmin, hlowest, hmax, hhighest, htrue, hfalse⟩ := hword
  simp only [parseLiteral, hd, h.trim_eq, hmin, hlowest, hmax, hhighest, htrue, hfalse,
    or_self, if_false, Bool.not_true, Bool.false_eq_true, hparse]

/-! ## What is read -/

/-- The limits of an element type are values of it. -/
theorem round_lowest (h : d.lowest = .ok u) : d.round u = u :=
  (Platform.answers_default.lowest d ⟨d, u⟩ (by simp only [Platform.default, h]; rfl)).2

theorem round_highest (h : d.highest = .ok u) : d.round u = u :=
  (Platform.answers_default.highest d ⟨d, u⟩ (by simp only [Platform.default, h]; rfl)).2

/-- **Whatever is read is a value of the element type.** -/
theorem round_of_parseLiteral {text : String} (h : d.parseLiteral text = .ok u) :
    d.round u = u := by
  unfold parseLiteral at h
  split at h
  · cases h
  dsimp only at h
  split at h
  · exact round_lowest h
  split at h
  · exact round_highest h
  split at h
  · exact Except.ok.inj h ▸ round_one d
  split at h
  · exact Except.ok.inj h ▸ round_zero d
  split at h
  · exact Except.ok.inj h ▸ round_round d _
  · cases h

/-! ## What is written -/

/-- A value of an integer type below `2^53` in size is the integer that it is written as. -/
theorem agrees_of_lt (hint : d.isInt = true) (hv : (d.round v).Agrees v)
    (hlt : v.abs.lt (.ofInt 9007199254740992) = true) :
    v.toInt.natAbs ≤ twoPow 53 ∧ v.Agrees (.ofInt v.toInt) := by
  rcases hv with hv | ⟨-, hzero⟩
  case inr =>
    obtain ⟨s, rfl⟩ := Double.isZero_iff.1 hzero
    have htoInt : (Double.signedZero s).toInt = 0 := by cases s <;> decide +kernel
    rw [htoInt]
    exact ⟨Nat.zero_le _, .inr ⟨hzero, by decide +kernel⟩⟩
  obtain ⟨hbool, low, high, hrange⟩ := exists_intRange? hint
  obtain ⟨hnumber, htrunc, -⟩ := integral_of_round_eq hbool hrange hv
  have hbound : v.key.natAbs ≤ twoPow 53 * quantaPerUnit := by
    have hend : (9007199254740992 : Int) = (twoPow 53 : Nat) := by decide
    simp only [Double.lt, Bool.and_eq_true, decide_eq_true_eq] at hlt
    rw [Double.key_abs, Double.key_ofInt (by decide), hend, ← Nat.cast_mul] at hlt
    exact_mod_cast hlt.2.le
  obtain ⟨hagrees, hkey⟩ := Double.agrees_ofInt_toInt hnumber htrunc hbound
  rw [hkey, Int.natAbs_mul, Int.natAbs_natCast] at hbound
  exact ⟨Nat.le_of_mul_le_mul_right hbound quantaPerUnit_pos, hagrees⟩

/-- The values of the boolean type are written as words. -/
theorem parseLiteral_valueText_bool (hv : (bool.round v).Agrees v) :
    ∃ u, bool.parseLiteral (bool.valueText v) = .ok u ∧ u.Agrees v := by
  rcases hv with hv | ⟨-, hzero⟩
  · refine ⟨v, ?_, .refl v⟩
    change (if v.isNaN || v.isZero then .zero else .one) = v at hv
    split at hv
    all_goals
      subst hv
      decide +kernel
  · obtain ⟨s, rfl⟩ := Double.isZero_iff.1 hzero
    exact ⟨.zero, by cases s <;> decide +kernel, Double.agrees_signedZero false s⟩

/-- **Literals round-trip.**  A value that rounding to a supported element type leaves as it is, up
to the sign of a zero, is read back from its text as an equal value, where NaNs are equal and so are
the zeros; and whatever is read as a value of an element type is left as it is by rounding to that
type. -/
theorem parseLiteral_valueText (d : DType) :
    (d.isSupported = true → ∀ v, (d.round v).Agrees v →
      ∃ u, d.parseLiteral (d.valueText v) = .ok u ∧ (⟨d, u⟩ : Scalar).equal ⟨d, v⟩ = true) ∧
    ∀ text u, d.parseLiteral text = .ok u → d.round u = u := by
  refine ⟨fun hd v hv => ?_, fun _ _ => round_of_parseLiteral⟩
  by_cases hbool : d = .bool
  · subst hbool
    obtain ⟨u, hu, hagrees⟩ := parseLiteral_valueText_bool hv
    exact ⟨u, hu, Scalar.equal_mk.2 hagrees⟩
  rw [valueText, if_neg hbool]
  split
  · rename_i hshort
    obtain ⟨hint, hlt⟩ := Bool.and_eq_true_iff.1 hshort
    obtain ⟨hsize, hagrees⟩ := agrees_of_lt hint hv hlt
    refine ⟨_, parseLiteral_of_parse hd (readsAsNumber_integerText _)
      (Double.parse_integerText hsize), ?_⟩
    exact Scalar.equal_mk.2 ((d.round_agrees hagrees.symm).trans hv)
  · refine ⟨_, parseLiteral_of_parse hd (readsAsNumber_toText v) (Double.parse_toText v), ?_⟩
    exact Scalar.equal_mk.2 hv

/-- The greatest value of the 64-bit integers, which is `2^63` in double precision, a negative zero,
which no unsigned integer is, and the word for the greatest of those. -/
theorem parseLiteral_valueText_limits :
    (∃ u, int64.parseLiteral (int64.valueText (.ofInt 9223372036854775807)) = .ok u ∧
      (⟨.int64, u⟩ : Scalar).equal ⟨.int64, .ofInt 9223372036854775807⟩ = true) ∧
    (∃ u, uint64.parseLiteral (uint64.valueText Double.zero.neg) = .ok u ∧
      (⟨.uint64, u⟩ : Scalar).equal ⟨.uint64, Double.zero.neg⟩ = true) ∧
    uint64.round (.ofInt 18446744073709551615) = .ofInt 18446744073709551615 :=
  ⟨(parseLiteral_valueText .int64).1 rfl _ (.inl (by decide +kernel)),
    (parseLiteral_valueText .uint64).1 rfl _ (.inr ⟨by decide +kernel, by decide +kernel⟩),
    (parseLiteral_valueText .uint64).2 "Max" _ (by decide +kernel)⟩

end DType
end LanePadding
