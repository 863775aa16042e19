import LanePadding.Text.Printable

/-!
# Quoted texts

Messages show texts between double quotes, with everything that would not show escaped: quotes and
backslashes by a backslash, the usual control characters by their letter, and other characters that
are not printable by their code in lower-case hexadecimal, two digits below U+0080, four up to
U+FFFF and eight beyond.
-/

set_option autoImplicit false

namespace LanePadding
namespace Text

/-- The low `count` hexadecimal digits of `n`. -/
def hexDigits (count n : Nat) : List Char :=
  let ds := Nat.toDigits 16 n
  List.replicate (count - ds.length) '0' ++ ds

/-- The escape letter of a control character that has one. -/
def escapeLetter? (c : Char) : Option Char :=
  match c.toNat with
  | 0x07 => some 'a'
  | 0x08 => some 'b'
  | 0x0c => some 'f'
  | 0x0a => some 'n'
  | 0x0d => some 'r'
  | 0x09 => some 't'
  | 0x0b => some 'v'
  | _ => none

/-- How one character is written inside quotes. -/
def quoteChar (c : Char) : List Char :=
  if c = '"' ∨ c = '\\' then ['\\', c]
  else if isPrintable c then [c]
  else
    match escapeLetter? c with
    | some letter => ['\\', letter]
    | none =>
      if c.toNat < 0x80 then '\\' :: 'x' :: hexDigits 2 c.toNat
      else if c.toNat < 0x10000 then '\\' :: 'u' :: hexDigits 4 c.toNat
      else '\\' :: 'U' :: hexDigits 8 c.toNat

/-- A text between double quotes, escaped. -/
def quote (s : String) : String :=
  String.ofList ('"' :: s.toList.flatMap quoteChar ++ ['"'])

/-- A list of quoted texts between brackets, separated by blanks. -/
def quoteList (names : List String) : String :=
  "[" ++ " ".intercalate (names.map quote) ++ "]"

end Text
end LanePadding
