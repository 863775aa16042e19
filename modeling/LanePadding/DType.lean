import LanePadding.Text.Case

/-!
# Element types

The element types a tensor can declare.  Only the booleans, the eight integer types and the four
common float types can be computed with; the others are known by name so that they can be refused
by name.

A type is found by its canonical name, by one of a few short aliases, or by the lower-case form of
either.
-/

set_option autoImplicit false

namespace LanePadding

/-- An element type. -/
inductive DType where
  | invalid | bool | int8 | int16 | int32 | int64 | uint8 | uint16 | uint32 | uint64 | float16
  | float32 | float64 | bfloat16 | complex64 | complex128 | f8e5m2 | f8e4m3fn | f8e4m3b11fnuz
  | f8e5m2fnuz | f8e4m3fnuz | s4 | u4 | token | s2 | u2 | f8e4m3 | f8e3m4 | f8e8m0fnu
  | f4e2m1fn
  deriving DecidableEq, Repr, Inhabited

namespace DType

/-- The canonical name. -/
def name : DType → String
  | .invalid => "InvalidDType"
  | .bool => "Bool"
  | .int8 => "Int8"
  | .int16 => "Int16"
  | .int32 => "Int32"
  | .int64 => "Int64"
  | .uint8 => "Uint8"
  | .uint16 => "Uint16"
  | .uint32 => "Uint32"
  | .uint64 => "Uint64"
  | .float16 => "Float16"
  | .float32 => "Float32"
  | .float64 => "Float64"
  | .bfloat16 => "BFloat16"
  | .complex64 => "Complex64"
  | .complex128 => "Complex128"
  | .f8e5m2 => "F8E5M2"
  | .f8e4m3fn => "F8E4M3FN"
  | .f8e4m3b11fnuz => "F8E4M3B11FNUZ"
  | .f8e5m2fnuz => "F8E5M2FNUZ"
  | .f8e4m3fnuz => "F8E4M3FNUZ"
  | .s4 => "S4"
  | .u4 => "U4"
  | .token => "TOKEN"
  | .s2 => "S2"
  | .u2 => "U2"
  | .f8e4m3 => "F8E4M3"
  | .f8e3m4 => "F8E3M4"
  | .f8e8m0fnu => "F8E8M0FNU"
  | .f4e2m1fn => "F4E2M1FN"

/-- All element types, in the order of their codes. -/
def all : List DType :=
  [.invalid, .bool, .int8, .int16, .int32, .int64, .uint8, .uint16, .uint32, .uint64, .float16,
   .float32, .float64, .bfloat16, .complex64, .complex128, .f8e5m2, .f8e4m3fn, .f8e4m3b11fnuz,
   .f8e5m2fnuz, .f8e4m3fnuz, .s4, .u4, .token, .s2, .u2, .f8e4m3, .f8e3m4, .f8e8m0fnu,
   .f4e2m1fn]

/-- Short names besides the canonical ones. -/
def aliases : List (String × DType) :=
  [("INVALID", .invalid), ("PRED", .bool), ("S8", .int8), ("S16", .int16), ("S32", .int32),
   ("S64", .int64), ("U8", .uint8), ("U16", .uint16), ("U32", .uint32), ("U64", .uint64),
   ("F16", .float16), ("F32", .float32), ("F64", .float64), ("BF16", .bfloat16),
   ("C64", .complex64), ("C128", .complex128)]

/-- Every name of every element type. -/
def names : List (String × DType) :=
  let spelled := all.map (fun d => (d.name, d)) ++ aliases
  spelled ++ spelled.map fun (n, d) => (Text.lower n, d)

/-- The element type with exactly this name. -/
def ofName? (text : String) : Option DType := names.lookup text

/-- The element type with this canonical name. -/
def ofCanonicalName? (text : String) : Option DType := all.find? (·.name == text)

def isFloat : DType → Bool
  | .float16 | .bfloat16 | .float32 | .float64 => true
  | _ => false

def isInt : DType → Bool
  | .int8 | .int16 | .int32 | .int64 | .uint8 | .uint16 | .uint32 | .uint64 => true
  | _ => false

/-- Whether scalars of this type can be computed with. -/
def isSupported (d : DType) : Bool := d.isFloat || d.isInt || d == .bool

/-- A float type narrower than double precision, whose operators are computed in single
precision. -/
def isNarrowFloat (d : DType) : Bool := d.isFloat && d != .float64

/-- The least and the greatest value of an integer type, the booleans counting as 0 and 1. -/
def intRange? : DType → Option (Int × Int)
  | .bool => some (0, 1)
  | .int8 => some (-128, 127)
  | .int16 => some (-32768, 32767)
  | .int32 => some (-2147483648, 2147483647)
  | .int64 => some (-9223372036854775808, 9223372036854775807)
  | .uint8 => some (0, 255)
  | .uint16 => some (0, 65535)
  | .uint32 => some (0, 4294967295)
  | .uint64 => some (0, 18446744073709551615)
  | _ => none

end DType
end LanePadding
