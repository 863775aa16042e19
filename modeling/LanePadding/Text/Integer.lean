import LanePadding.Text.Quoted

/-!
# Integers in texts

A 64-bit integer is written as an optional sign and decimal digits.  A text that is not of this form
is malformed, whatever its size; a well-formed one past 64 bits is out of range.

Machine integers of the library are ordinary integers from `-int64End` up to, but without,
`int64End`; `wrap` brings the result of an operation that may leave this range back into it.
-/

set_option autoImplicit false

namespace LanePadding
namespace Text

/-- `2^63`, the first integer past those of 64 bits. -/
def int64End : Int := 9223372036854775808

/-- The 64-bit two's-complement integer congruent to `z`. -/
def wrap (z : Int) : Int := z.bmod 18446744073709551616

/-- Why a text is not a 64-bit integer. -/
inductive IntegerError where
  | malformed (text : String)
  | outOfRange (text : String)
  deriving DecidableEq, Repr

/-- The report of a text that is not a 64-bit integer. -/
def IntegerError.message : IntegerError → String
  | .malformed text => "strconv.Atoi: parsing " ++ quote text ++ ": invalid syntax"
  | .outOfRange text => "strconv.Atoi: parsing " ++ quote text ++ ": value out of range"

/-- The value of a nonempty string of decimal digits. -/
def naturalOfDigits? (cs : List Char) : Option Nat :=
  if cs ≠ [] ∧ cs.all Char.isDigit then some (Nat.ofDigitChars 10 cs 0) else none

/-- The value of an optional sign and decimal digits. -/
def integerOfChars? : List Char → Option Int
  | '+' :: cs => (naturalOfDigits? cs).map fun n => (n : Int)
  | '-' :: cs => (naturalOfDigits? cs).map fun n => -(n : Int)
  | cs => (naturalOfDigits? cs).map fun n => (n : Int)

/-- Reads a 64-bit integer. -/
def parseInteger (text : String) : Except IntegerError Int :=
  match integerOfChars? text.toList with
  | some z => if -int64End ≤ z ∧ z < int64End then .ok z else .error (.outOfRange text)
  | none => .error (.malformed text)

/-- An integer in decimal, without a sign unless it is negative. -/
def integerText (z : Int) : String :=
  String.ofList ((if z < 0 then ['-'] else []) ++ Nat.toDigits 10 z.natAbs)

/-- Integers between brackets, separated by blanks. -/
def integerList (zs : List Int) : String :=
  "[" ++ " ".intercalate (zs.map integerText) ++ "]"

end Text
end LanePadding
