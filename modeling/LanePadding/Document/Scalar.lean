import LanePadding.Document.Glyph
import LanePadding.Number.Decimal

/-!
# The text of scalars

A scalar is written plainly, between quotes, or as a block of indented lines.  In the first two
forms a line break within the scalar is folded: it becomes a blank, and each further break stays.
`Gap` collects what stands between two words and says what it becomes.

In a block, the lines below the indicator that are indented far enough are the text, and the
indicator says whether breaks are folded and which of the last ones are kept.

Texts are collected in reverse, the character read last in front.
-/

set_option autoImplicit false

namespace LanePadding
namespace Document

/-! ## Folding -/

/-- The blanks and breaks read since the last word. -/
structure Gap where
  /-- The blanks, as long as there was no break. -/
  blanks : List Char
  /-- Whether there was a break. -/
  broken : Bool
  /-- The first break, unless it was escaped. -/
  first : Option Char
  /-- The other breaks. -/
  others : List Char

namespace Gap

def empty : Gap := ⟨[], false, none, []⟩

/-- The gap begun by an escaped break, which leaves nothing behind. -/
def escaped : Gap := ⟨[], true, none, []⟩

/-- Whether anything was read. -/
def isOpen (g : Gap) : Bool := g.broken || !g.blanks.isEmpty

def addBlank (g : Gap) (c : Char) : Gap :=
  if g.broken then g else { g with blanks := c :: g.blanks }

def addBreak (g : Gap) (c : Char) : Gap :=
  if g.broken then { g with others := c :: g.others } else ⟨[], true, some c, []⟩

/-- The text before the gap with what the gap becomes. -/
def close (g : Gap) (text : List Char) : List Char :=
  if !g.broken then g.blanks ++ text
  else
    match g.first with
    | some '\n' => if g.others.isEmpty then ' ' :: text else g.others ++ text
    | some c => g.others ++ c :: text
    | none => g.others ++ text

end Gap

/-! ## Plain scalars -/

/-- Whether a plain scalar ends before the character `c`; within brackets, they and commas end
it. -/
def endsPlain (flow : Bool) (c : Char) (rest : List Glyph) : Bool :=
  (c == ':' && gapAhead rest) || (flow && c ∈ [',', '?', '[', ']', '\x7b', '\x7d'])

/-- Whether a plain scalar that was interrupted by a gap does not go on: at a comment, at a document
mark, or on a line that is indented too little. -/
def endsAfterGap (flow : Bool) (indent : Int) (g : Glyph) (rest : List Glyph) : Bool :=
  g.char == '#' || atDocumentMark (g :: rest) || (!flow && g.column < indent)

/-- Reads a plain scalar whose further lines are indented by `indent` at least.  Returns its text,
the gap behind it and the glyphs that follow. -/
def plainText (flow : Bool) (indent : Int) (text : List Char) (gap : Gap) :
    List Glyph → Option (List Char × Gap × List Glyph)
  | [] => some (text, gap, [])
  | g :: rest =>
    if isBlank g.char then
      if gap.broken && g.column < indent && g.char == '\t' then none
      else plainText flow indent text (gap.addBlank g.char) rest
    else if isBreak g.char then plainText flow indent text (gap.addBreak g.char) rest
    else if endsPlain flow g.char rest || (gap.isOpen && endsAfterGap flow indent g rest) then
      some (text, gap, g :: rest)
    else plainText flow indent (g.char :: gap.close text) .empty rest

/-! ## Quoted scalars -/

/-- Reads the rest of a scalar between single quotes, where a quote is written twice. -/
def singleQuoted (text : List Char) (gap : Gap) : List Glyph → Option (List Char × List Glyph)
  | [] => none
  | g :: rest =>
    if isBlank g.char then singleQuoted text (gap.addBlank g.char) rest
    else if isBreak g.char then singleQuoted text (gap.addBreak g.char) rest
    else if atDocumentMark (g :: rest) then none
    else if g.char == '\'' then
      match rest with
      | [] => some (gap.close text, [])
      | q :: after =>
        if q.char == '\'' then singleQuoted ('\'' :: gap.close text) .empty after
        else some (gap.close text, q :: after)
    else singleQuoted (g.char :: gap.close text) .empty rest

/-- What a backslash and a letter stand for. -/
inductive Escape where
  | char (c : Char)
  /-- A character given by this many hexadecimal digits. -/
  | code (digits : Nat)

/-- The escape that a letter after a backslash begins. -/
def Escape.ofLetter? : Char → Option Escape
  | '0' => some (.char '\x00')
  | 'a' => some (.char '\x07')
  | 'b' => some (.char '\x08')
  | 't' | '\t' => some (.char '\t')
  | 'n' => some (.char '\n')
  | 'v' => some (.char '\x0b')
  | 'f' => some (.char '\x0c')
  | 'r' => some (.char '\r')
  | 'e' => some (.char '\x1b')
  | ' ' => some (.char ' ')
  | '"' => some (.char '"')
  | '\'' => some (.char '\'')
  | '\\' => some (.char '\\')
  | 'N' => some (.char '\u0085')
  | '_' => some (.char '\u00a0')
  | 'L' => some (.char '\u2028')
  | 'P' => some (.char '\u2029')
  | 'x' => some (.code 2)
  | 'u' => some (.code 4)
  | 'U' => some (.code 8)
  | _ => none

/-- Where a reader between double quotes stands. -/
inductive QuoteState where
  | text
  /-- Behind a backslash. -/
  | escape
  /-- Within a code, with this many digits to come and this value so far. -/
  | code (digits value : Nat)

/-- Reads the rest of a scalar between double quotes. -/
def doubleQuoted (state : QuoteState) (text : List Char) (gap : Gap) :
    List Glyph → Option (List Char × List Glyph)
  | [] => none
  | g :: rest =>
    match state with
    | .escape =>
      if isBreak g.char then doubleQuoted .text text .escaped rest
      else
        match Escape.ofLetter? g.char with
        | some (.char c) => doubleQuoted .text (c :: text) .empty rest
        | some (.code n) => doubleQuoted (.code n 0) text .empty rest
        | none => none
    | .code n value =>
      match Number.hexDigit? g.char with
      | none => none
      | some d =>
        let value := 16 * value + d
        if 1 < n then doubleQuoted (.code (n - 1) value) text .empty rest
        else if value.isValidChar then doubleQuoted .text (Char.ofNat value :: text) .empty rest
        else none
    | .text =>
      if isBlank g.char then doubleQuoted .text text (gap.addBlank g.char) rest
      else if isBreak g.char then doubleQuoted .text text (gap.addBreak g.char) rest
      else if atDocumentMark (g :: rest) then none
      else if g.char == '"' then some (gap.close text, rest)
      else if g.char == '\\' then doubleQuoted .escape (gap.close text) .empty rest
      else doubleQuoted .text (g.char :: gap.close text) .empty rest

/-! ## Block scalars -/

/-- Which of the breaks at the end of a block are kept. -/
inductive Chomping where
  | strip
  | clip
  | keep
  deriving DecidableEq

/-- What stands behind the indicator of a block. -/
structure BlockHeader where
  chomping : Chomping
  /-- How much deeper than its parent the block is indented, if that is given. -/
  indentation : Option Nat

namespace BlockHeader

def chomping? (c : Char) : Option Chomping :=
  if c = '-' then some .strip else if c = '+' then some .keep else none

/-- Reads how the block is chomped, if that is given. -/
def readChomping : List Glyph → Option Chomping × List Glyph
  | [] => (none, [])
  | g :: rest =>
    match chomping? g.char with
    | some c => (some c, rest)
    | none => (none, g :: rest)

/-- Reads how deep the block is indented, if that is given; zero is not allowed. -/
def readIndentation : List Glyph → Option (Option Nat × List Glyph)
  | [] => some (none, [])
  | g :: rest =>
    match Number.decimalDigit? g.char with
    | some 0 => none
    | some n => some (some n, rest)
    | none => some (none, g :: rest)

/-- Skips blanks and a comment up to the end of the line and past it; nothing else may stand
there. -/
def skipLine (gs : List Glyph) : Option (List Glyph) :=
  match gs.dropWhile fun g => isBlank g.char with
  | [] => some []
  | g :: rest =>
    if isBreak g.char then some rest
    else if g.char == '#' then some ((rest.dropWhile fun g => !isBreak g.char).drop 1)
    else none

/-- Reads the rest of the line of a block indicator. -/
def read (gs : List Glyph) : Option (BlockHeader × List Glyph) := do
  let (before, gs) := readChomping gs
  let (indentation, gs) ← readIndentation gs
  let (after, gs) := if before.isNone && indentation.isSome then readChomping gs else (none, gs)
  let gs ← skipLine gs
  return (⟨(before.or after).getD .clip, indentation⟩, gs)

end BlockHeader

/-- Where a reader of a block stands. -/
structure BlockState where
  text : List Char
  /-- The indentation of the block, once it is known. -/
  indent : Option Nat
  /-- The deepest indentation seen while it is not known. -/
  deepest : Nat
  /-- Whether the reader is within a line of the text. -/
  inLine : Bool
  /-- Whether the last line began with a blank. -/
  blankLine : Bool
  /-- The break that ended the last line. -/
  ending : Option Char
  /-- The breaks of empty lines since. -/
  empties : List Char

namespace BlockState

/-- The indentation of a block below a parent indented by `parent`: as deep as the lines seen, and
deeper than the parent. -/
def settledIndent (s : BlockState) (parent : Int) : Nat :=
  s.indent.getD (max (max s.deepest (parent + 1).toNat) 1)

/-- Begins a line with the character `c`.  A break between two lines that begin with no blank is
folded. -/
def beginLine (s : BlockState) (folded : Bool) (indent : Nat) (c : Char) : BlockState :=
  let join : List Char :=
    if folded && !s.blankLine && !isBlank c && s.ending == some '\n' then
      (if s.empties.isEmpty then [' '] else [])
    else s.ending.toList
  { s with
    text := c :: (s.empties ++ join ++ s.text)
    indent := some indent
    inLine := true
    blankLine := isBlank c
    ending := none
    empties := [] }

/-- Ends a block. -/
def close (s : BlockState) (chomping : Chomping) : List Char :=
  match chomping with
  | .strip => s.text
  | .clip => s.ending.toList ++ s.text
  | .keep => s.empties ++ s.ending.toList ++ s.text

end BlockState

/-- Reads the lines of a block below a parent indented by `parent`. -/
def blockText (folded : Bool) (parent : Int) (s : BlockState) :
    List Glyph → Option (BlockState × List Glyph)
  | [] => some (s, [])
  | g :: rest =>
    if s.inLine then
      if isBreak g.char then
        blockText folded parent { s with inLine := false, ending := some g.char } rest
      else blockText folded parent { s with text := g.char :: s.text } rest
    else
      let shallow := s.indent.all fun n => g.column < n
      if g.char == ' ' && shallow then blockText folded parent s rest
      else if g.char == '\t' && shallow then none
      else
        let s := { s with deepest := max s.deepest g.column }
        if isBreak g.char then
          blockText folded parent { s with empties := g.char :: s.empties } rest
        else
          let indent := s.settledIndent parent
          if g.column = indent then blockText folded parent (s.beginLine folded indent g.char) rest
          else some (s, g :: rest)

/-- Reads a block scalar behind its indicator. -/
def blockScalar (folded : Bool) (parent : Int) (gs : List Glyph) :
    Option (List Char × List Glyph) := do
  let (header, gs) ← BlockHeader.read gs
  let indent := header.indentation.map fun n => (max parent 0).toNat + n
  let (s, gs) ← blockText folded parent ⟨[], indent, 0, false, false, none, []⟩ gs
  return (s.close header.chomping, gs)

end Document
end LanePadding
