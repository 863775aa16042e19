import LanePadding.Number.Double

/-!
# Decimal texts of double-precision numbers

Writing: the text of a finite number has the fewest significant digits that read back as that very
number; of several such digit strings the one nearest to the number, and the even one on a tie.
`shortest` finds them grid by grid, testing the two neighbours of the number among the decimals with
one digit, two digits, and so on.  The test *is* reading back, so whatever it returns denotes the
number it came from.

Reading: `Double.parse` accepts decimal numerals, hexadecimal numerals with a binary exponent, the
infinities and NaN, and underscores between digits; it rounds the exact value once.
-/

set_option autoImplicit false

namespace LanePadding
namespace Number

/-! ## Decimals -/

/-- The power `10^n`. -/
abbrev tenPow (n : Nat) : Nat := Nat.pow 10 n

/-- The number `coefficient · 10^exponent`. -/
structure Decimal where
  coefficient : Nat
  exponent : Int
  deriving DecidableEq, Repr

namespace Decimal

/-- The double nearest to a signed decimal. -/
def toDouble (negative : Bool) (d : Decimal) : Double :=
  if 0 ≤ d.exponent then
    Format.double.round negative (d.coefficient * tenPow d.exponent.toNat * quantaPerUnit) 1
  else
    Format.double.round negative (d.coefficient * quantaPerUnit) (tenPow (-d.exponent).toNat)

/-- The same number without trailing zeros in its coefficient. -/
def strip (d : Decimal) : Decimal :=
  if d.coefficient = 0 then d
  else if d.coefficient % 10 = 0 then strip ⟨d.coefficient / 10, d.exponent + 1⟩
  else d
termination_by d.coefficient
decreasing_by omega

/-- The magnitude `q` written out in full: `q · 2^-1074` is `q · 5^1074 · 10^-1074`. -/
def exact (q : Nat) : Decimal := ⟨q * Nat.pow 5 1074, -1074⟩

/-! ## Shortest digits -/

/-- Whether `q` quanta are at least `10^e`. -/
def reaches (q : Nat) (e : Int) : Bool :=
  if 0 ≤ e then tenPow e.toNat * quantaPerUnit ≤ q else quantaPerUnit ≤ q * tenPow (-e).toNat

/-- The decimal exponent of a positive magnitude: the `e` with `10^e ≤ q < 10^(e+1)`.  The binary
exponent gives it up to one. -/
def leadingExponent (q : Nat) : Int :=
  let guess : Int := ((q.log2 : Int) - 1074) * 30103 / 100000
  if reaches q (guess + 1) then guess + 1
  else if reaches q guess then guess
  else guess - 1

/-- The two neighbours of `q` quanta on the grid of multiples of `10^k`, the nearer one first and on
a tie the even one. -/
def neighbours (q : Nat) (k : Int) : List Decimal :=
  let n := q * tenPow (-k).toNat
  let d := quantaPerUnit * tenPow k.toNat
  let below : Decimal := ⟨n / d, k⟩
  let above : Decimal := ⟨n / d + 1, k⟩
  if divNearest n d = n / d then [below, above] else [above, below]

/-- The shortest decimal that reads back as `q` quanta, by number of digits. -/
def shortest (q : Nat) : Decimal :=
  let e := leadingExponent q
  let grids := (List.range 17).map fun (n : Nat) => e - (n : Int)
  let found := (grids.flatMap (neighbours q)).find? fun d => d.toDouble false = .ofQuanta false q
  (found.getD (exact q)).strip

end Decimal

/-! ## Writing -/

/-- How a number is laid out around its significant digits. -/
structure DecimalLayout where
  /-- The least decimal exponent that is written positionally. -/
  leastPositional : Int
  /-- The least decimal exponent past the positional ones. -/
  firstScientific : Int
  /-- The least number of digits of a written exponent. -/
  exponentDigits : Nat

/-- Numbers from `0.0001` up to, and not including, one million are written positionally; an
exponent has a sign and at least two digits. -/
def DecimalLayout.standard : DecimalLayout := ⟨-4, 6, 2⟩

/-- The digits of a natural number, with zeros in front up to the given length. -/
def paddedDigits (length n : Nat) : List Char :=
  let ds := Nat.toDigits 10 n
  List.replicate (length - ds.length) '0' ++ ds

/-- Lays out significant digits whose first one has the decimal exponent `e`. -/
def DecimalLayout.place (layout : DecimalLayout) (digits : List Char) (e : Int) : List Char :=
  if e < layout.leastPositional ∨ layout.firstScientific ≤ e then
    let fraction := digits.drop 1
    digits.take 1 ++ (if fraction = [] then [] else '.' :: fraction) ++
      ['e', if e < 0 then '-' else '+'] ++ paddedDigits layout.exponentDigits e.natAbs
  else if e < 0 then
    '0' :: '.' :: (List.replicate (e.natAbs - 1) '0' ++ digits)
  else
    let whole := e.toNat + 1
    let fraction := digits.drop whole
    digits.take whole ++ List.replicate (whole - digits.length) '0' ++
      (if fraction = [] then [] else '.' :: fraction)

/-- The text of a number: the shortest digits that read back, in the standard layout. -/
def Double.toText : Double → String
  | .nan => "NaN"
  | .inf s => if s then "-Inf" else "+Inf"
  | .fin s q _ =>
    let body :=
      if q = 0 then ['0']
      else
        let d := Decimal.shortest q
        let digits := Nat.toDigits 10 d.coefficient
        DecimalLayout.standard.place digits (d.exponent + digits.length - 1)
    String.ofList (if s then '-' :: body else body)

/-! ## Reading -/

/-- Why a text is not a number. -/
inductive NumeralError where
  /-- The text is no numeral. -/
  | malformed
  /-- The numeral denotes a number past the largest finite one. -/
  | outOfRange
  deriving DecidableEq, Repr

/-- The lower-case form of an ASCII letter; other characters are kept. -/
def asciiLower (c : Char) : Char :=
  if 'A' ≤ c ∧ c ≤ 'Z' then Char.ofNat (c.toNat + 32) else c

def decimalDigit? (c : Char) : Option Nat :=
  if '0' ≤ c ∧ c ≤ '9' then some (c.toNat - '0'.toNat) else none

def hexDigit? (c : Char) : Option Nat :=
  let l := asciiLower c
  if '0' ≤ c ∧ c ≤ '9' then some (c.toNat - '0'.toNat)
  else if 'a' ≤ l ∧ l ≤ 'f' then some (l.toNat - 'a'.toNat + 10)
  else none

/-- The digits of a numeral before its exponent: their value as one integer, how many stand after
the point, whether there is any, and what follows. -/
structure Mantissa where
  value : Nat
  fraction : Nat
  nonempty : Bool
  rest : List Char

/-- Reads digits of the given base, with at most one point among them, and skips underscores. -/
def scanMantissa (base : Nat) (digit? : Char → Option Nat) (value fraction : Nat)
    (seenDigit seenPoint : Bool) : List Char → Mantissa
  | [] => ⟨value, fraction, seenDigit, []⟩
  | c :: cs =>
    if c = '_' then scanMantissa base digit? value fraction seenDigit seenPoint cs
    else if c = '.' then
      if seenPoint then ⟨value, fraction, seenDigit, c :: cs⟩
      else scanMantissa base digit? value fraction seenDigit true cs
    else
      match digit? c with
      | some d =>
        scanMantissa base digit? (value * base + d) (if seenPoint then fraction + 1 else fraction)
          true seenPoint cs
      | none => ⟨value, fraction, seenDigit, c :: cs⟩

/-- The value of exponent digits and underscores, none if another character is among them.  Digits
past the ten-thousands are dropped: such an exponent overflows or underflows in any case. -/
def scanExponent (value : Nat) : List Char → Option Nat
  | [] => some value
  | c :: cs =>
    if c = '_' then scanExponent value cs
    else
      match decimalDigit? c with
      | some d => scanExponent (if value < 10000 then value * 10 + d else value) cs
      | none => none

/-- A signed exponent that starts with a digit and ends the text. -/
def parseExponent (cs : List Char) : Option Int :=
  let digits (cs : List Char) : Option Nat :=
    match cs with
    | [] => none
    | c :: _ => if (decimalDigit? c).isSome then scanExponent 0 cs else none
  match cs with
  | '+' :: cs => (digits cs).map fun n => (n : Int)
  | '-' :: cs => (digits cs).map fun n => -(n : Int)
  | cs => (digits cs).map fun n => (n : Int)

/-- Whether every underscore stands between two digits, a base mark counting as a digit.  The first
argument says whether the character before was a digit, an underscore, or neither. -/
def underscoresSeparate (isDigit : Char → Bool) : Option Bool → List Char → Bool
  | before, [] => before != some false
  | before, c :: cs =>
    if isDigit c then underscoresSeparate isDigit (some true) cs
    else if c = '_' then before == some true && underscoresSeparate isDigit (some false) cs
    else before != some false && underscoresSeparate isDigit none cs

/-- `underscoresSeparate` for a whole unsigned numeral, with its base mark. -/
def underscoresAllowed : List Char → Bool
  | '0' :: m :: cs =>
    if asciiLower m = 'x' then underscoresSeparate (fun c => (hexDigit? c).isSome) (some true) cs
    else if asciiLower m = 'b' ∨ asciiLower m = 'o' then
      underscoresSeparate (fun c => (decimalDigit? c).isSome) (some true) cs
    else underscoresSeparate (fun c => (decimalDigit? c).isSome) none ('0' :: m :: cs)
  | cs => underscoresSeparate (fun c => (decimalDigit? c).isSome) none cs

/-- A finite result, or the report that it is out of range. -/
def finiteOrRange (x : Double) : Except NumeralError Double :=
  match x with
  | .inf _ => .error .outOfRange
  | x => .ok x

/-- An unsigned hexadecimal numeral after its `0x`; the binary exponent is mandatory. -/
def parseHexadecimal (negative : Bool) (cs : List Char) : Except NumeralError Double :=
  let m := scanMantissa 16 hexDigit? 0 0 false false cs
  match m.nonempty, m.rest with
  | true, p :: rest =>
    if asciiLower p = 'p' then
      match parseExponent rest with
      | some e =>
        let s : Int := e - 4 * m.fraction
        finiteOrRange (Format.double.round negative (m.value * twoPow s.toNat * quantaPerUnit)
          (twoPow (-s).toNat))
      | none => .error .malformed
    else .error .malformed
  | _, _ => .error .malformed

/-- An unsigned decimal numeral. -/
def parseDecimal (negative : Bool) (cs : List Char) : Except NumeralError Double :=
  let m := scanMantissa 10 decimalDigit? 0 0 false false cs
  let value (e : Int) : Except NumeralError Double :=
    finiteOrRange (Decimal.toDouble negative ⟨m.value, e - m.fraction⟩)
  match m.nonempty, m.rest with
  | true, [] => value 0
  | true, c :: rest =>
    if asciiLower c = 'e' then
      match parseExponent rest with
      | some e => value e
      | none => .error .malformed
    else .error .malformed
  | false, _ => .error .malformed

/-- An unsigned number: an infinity or a numeral. -/
def parseUnsigned (negative : Bool) (cs : List Char) : Except NumeralError Double :=
  let lower := cs.map asciiLower
  if lower = ['i', 'n', 'f'] ∨ lower = "infinity".toList then .ok (.inf negative)
  else if !underscoresAllowed cs then .error .malformed
  else
    match cs with
    | '0' :: x :: c :: rest =>
      if asciiLower x = 'x' then parseHexadecimal negative (c :: rest)
      else parseDecimal negative cs
    | cs => parseDecimal negative cs

/-- Reads a number.  A NaN takes no sign. -/
def Double.parse (text : String) : Except NumeralError Double :=
  match text.toList with
  | '+' :: cs => parseUnsigned false cs
  | '-' :: cs => parseUnsigned true cs
  | cs => if cs.map asciiLower = ['n', 'a', 'n'] then .ok .nan else parseUnsigned false cs

end Number
end LanePadding
