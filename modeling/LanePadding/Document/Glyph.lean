import LanePadding.Text.Blank

/-!
# Characters of a document

Descriptions are written in YAML, of which JSON is a part.  A text is read as a list of glyphs:
characters that know their line and column.  Carriage returns, alone or before a line feed, and the
next-line control are line feeds; the line and paragraph separators break lines too, but are kept as
they are where a break is part of a scalar.
-/

set_option autoImplicit false

namespace LanePadding
namespace Document

/-- A character with its place in the text. -/
structure Glyph where
  char : Char
  /-- Counted from one. -/
  line : Nat
  /-- Counted from zero. -/
  column : Nat
  deriving DecidableEq, Repr

/-! ## Classes of characters -/

/-- Whether a character separates words on a line. -/
def isBlank (c : Char) : Bool := c == ' ' || c == '\t'

/-- Whether a character ends a line. -/
def isBreak (c : Char) : Bool := c == '\n' || c == '\u2028' || c == '\u2029'

/-- The mark that may stand in front of a text or a line and means nothing. -/
def byteOrderMark : Char := '\ufeff'

/-- Whether a character may occur in a text: control characters and noncharacters may not. -/
def isAllowed (c : Char) : Bool :=
  let n := c.toNat
  n == 0x09 || n == 0x0a || n == 0x0d || (0x20 ≤ n && n ≤ 0x7e) || n == 0x85 ||
    (0xa0 ≤ n && n ≤ 0xfffd) || 0x10000 ≤ n

/-- Whether the next character separates what stands before it from what follows, as the end of the
text does. -/
def gapAhead : List Glyph → Bool
  | [] => true
  | g :: _ => isBlank g.char || isBreak g.char

/-- Whether a line begins with three times the character `c`, standing alone. -/
def isMark (c : Char) : List Glyph → Bool
  | g₁ :: g₂ :: g₃ :: rest =>
    g₁.column == 0 && g₁.char == c && g₂.char == c && g₃.char == c && gapAhead rest
  | _ => false

/-- Whether a line begins a document or ends one. -/
def atDocumentMark (gs : List Glyph) : Bool := isMark '-' gs || isMark '.' gs

/-! ## Reading a text -/

/-- The characters with all line feeds written alike. -/
def unifyBreaks : List Char → List Char
  | [] => []
  | '\r' :: '\n' :: rest => '\n' :: unifyBreaks rest
  | c :: rest => (if c = '\r' ∨ c = '\u0085' then '\n' else c) :: unifyBreaks rest

/-- The characters with their places, the first one at the given place. -/
def locate (line column : Nat) : List Char → List Glyph
  | [] => []
  | c :: rest =>
    ⟨c, line, column⟩ ::
      (if isBreak c then locate (line + 1) 0 rest else locate line (column + 1) rest)

/-- The glyphs of a text; none if it holds a character that may not occur. -/
def glyphs? (text : String) : Option (List Glyph) :=
  let cs := text.toList
  let cs := if cs.head? = some byteOrderMark then cs.tail else cs
  if cs.all isAllowed then some (locate 1 0 (unifyBreaks cs)) else none

end Document
end LanePadding
