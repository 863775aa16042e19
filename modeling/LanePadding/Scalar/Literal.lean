import LanePadding.Scalar.Basic

/-!
# Literals and machine values

Two ways a scalar enters the library: as a literal in a text, and as a value of a machine type.

A literal is a number, a truth value, or one of the words for the limits of its element type.  The
words are recognised in any letter case and with blanks around.
-/

set_option autoImplicit false

namespace LanePadding

open Number

/-! ## Literals -/

/-- Reads a literal of the element type `d`. -/
def DType.parseLiteral (d : DType) (text : String) : Except ScalarError Double :=
  if !d.isSupported then .error (.unsupportedLiteral d text)
  else
    let trimmed := Text.trim text
    let word := Text.lower trimmed
    if word = "min" ∨ word = "lowest" then d.lowest
    else if word = "max" ∨ word = "highest" then d.highest
    else if word = "true" then .ok .one
    else if word = "false" then .ok .zero
    else
      match Double.parse trimmed with
      | .ok v => .ok (d.round v)
      | .error cause => .error (.invalidLiteral text d trimmed cause)

/-! ## Machine values -/

/-- The number with these 16 bits in a format of that width: a sign, an exponent field, and one bit
less than the precision of fraction. -/
def Number.Format.decode (f : Format) (bits : Nat) : Double :=
  let negative := bits / twoPow 15 % 2 = 1
  let fractionBits := f.precision - 1
  let fraction := bits % twoPow fractionBits
  let top := twoPow (15 - fractionBits) - 1
  let field := bits / twoPow fractionBits % twoPow (15 - fractionBits)
  if field = top then (if fraction = 0 then .inf negative else .nan)
  else if field = 0 then .ofQuanta negative (fraction * twoPow f.finest)
  else .ofQuanta negative ((twoPow fractionBits + fraction) * twoPow (f.finest + field - 1))

/-- A value of a machine type. -/
inductive MachineValue where
  | float64 (v : Double)
  /-- Single precision; the value is rounded to it. -/
  | float32 (v : Double)
  /-- The bits of a half-precision number. -/
  | float16 (bits : Nat)
  /-- The bits of a number of the 16-bit format with the range of single precision. -/
  | bfloat16 (bits : Nat)
  /-- An integer of the given integer type. -/
  | integer (dtype : DType) (z : Int)
  | bool (b : Bool)
  /-- A value of a type that no scalar has. -/
  | other (typeName : String)

/-- The scalar of a machine value, in the element type that corresponds to its machine type. -/
def Scalar.ofMachine : MachineValue → Except ScalarError Scalar
  | .float64 v => ofDouble .float64 v
  | .float32 v => ofDouble .float32 (v.roundTo .single)
  | .float16 bits => ofDouble .float16 (Format.half.decode bits)
  | .bfloat16 bits => ofDouble .bfloat16 (Format.brain.decode bits)
  | .integer d z => ofDouble d (Double.ofInt z)
  | .bool b => ofDouble .bool (if b then .one else .zero)
  | .other t => .error (.unsupportedType t)

end LanePadding
