import LanePadding.Number.Decimal
import LanePadding.Text.Integer

/-!
# What plain scalars mean

A plain scalar is read as null, a truth value or a number if it is written like one, and as a text
otherwise.  Underscores in numbers mean nothing, and integers may be binary, octal or hexadecimal.
An integer too large for 64 bits is a floating-point number.
-/

set_option autoImplicit false

namespace LanePadding
namespace Document

open Number

/-- The meaning of a plain scalar. -/
inductive Value where
  | null
  | bool (b : Bool)
  | integer (z : Int)
  | float (v : Double)
  | text

namespace Value

/-- The tag of the kind of value. -/
def tag : Value → String
  | .null => "!!null"
  | .bool _ => "!!bool"
  | .integer _ => "!!int"
  | .float _ => "!!float"
  | .text => "!!str"

/-- The scalars that have a meaning of their own. -/
def word? (s : String) : Option Value :=
  if s ∈ ["", "~", "null", "Null", "NULL"] then some .null
  else if s ∈ ["true", "True", "TRUE"] then some (.bool true)
  else if s ∈ ["false", "False", "FALSE"] then some (.bool false)
  else if s ∈ [".nan", ".NaN", ".NAN"] then some (.float .nan)
  else if s ∈ [".inf", ".Inf", ".INF", "+.inf", "+.Inf", "+.INF"] then some (.float (.inf false))
  else if s ∈ ["-.inf", "-.Inf", "-.INF"] then some (.float (.inf true))
  else none

/-! ## Integers -/

/-- The number written with these digits. -/
def digits? (base : Nat) (cs : List Char) : Option Nat :=
  cs.foldlM
    (fun n c => (hexDigit? c).bind fun d => if d < base then some (base * n + d) else none) 0

/-- The base that a letter after a zero stands for. -/
def base? (c : Char) : Option Nat :=
  match asciiLower c with
  | 'b' => some 2
  | 'o' => some 8
  | 'x' => some 16
  | _ => none

/-- An integer without a sign; a zero in front makes it octal. -/
def magnitude? : List Char → Option Nat
  | [] => none
  | '0' :: c :: d :: rest =>
    match base? c with
    | some base => digits? base (d :: rest)
    | none => digits? 8 (c :: d :: rest)
  | '0' :: rest => digits? 8 rest
  | cs => digits? 10 cs

/-- An integer of 64 bits; without a sign it may use all of them. -/
def integer? : List Char → Option Int
  | '-' :: cs => (magnitude? cs).bind fun n => if n ≤ Text.int64End then some (-(n : Int)) else none
  | '+' :: cs => (magnitude? cs).bind fun n => if n < Text.int64End then some (n : Int) else none
  | cs => (magnitude? cs).bind fun n => if n < 2 * Text.int64End then some (n : Int) else none

/-! ## Floating-point numbers -/

/-- Whether nothing or an exponent is left. -/
def isExponent : List Char → Bool
  | [] => true
  | c :: cs =>
    let digits :=
      match cs with
      | '+' :: ds | '-' :: ds => ds
      | ds => ds
    (c == 'e' || c == 'E') && !digits.isEmpty && digits.all Char.isDigit

/-- Whether digits, a point and an exponent follow each other as in a number. -/
def isFloat (cs : List Char) : Bool :=
  let cs :=
    match cs with
    | '+' :: ds | '-' :: ds => ds
    | ds => ds
  let whole := cs.takeWhile Char.isDigit
  match cs.dropWhile Char.isDigit with
  | '.' :: rest =>
    let fraction := rest.takeWhile Char.isDigit
    (!whole.isEmpty || !fraction.isEmpty) && isExponent (rest.dropWhile Char.isDigit)
  | rest => !whole.isEmpty && isExponent rest

/-- The number that a text is read as, if it is in range. -/
def float? (s : String) : Option Value :=
  match Double.parse s with
  | .ok v => some (.float v)
  | .error _ => none

/-! ## Plain scalars -/

/-- The number that a plain scalar is written as. -/
def number? (s : String) : Option Value :=
  match s.toList with
  | [] => none
  | c :: cs =>
    if c = '.' then float? s
    else if c.isDigit || c == '+' || c == '-' then
      let significant := (c :: cs).filter (· ≠ '_')
      match integer? significant with
      | some z => some (.integer z)
      | none => if isFloat significant then float? (String.ofList significant) else none
    else none

/-- The meaning of a plain scalar. -/
def ofPlain (s : String) : Value := (word? s <|> number? s).getD .text

end Value
end Document
end LanePadding
