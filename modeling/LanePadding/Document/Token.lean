import LanePadding.Document.Scalar

/-!
# Tokens of a document

`Token.scan` cuts a text into tokens.  Indentation is made explicit: a block collection begins with
a token of its own where its first entry is indented deeper than what surrounds it, and ends with
`blockEnd` where a line is indented less.

A key needs no mark in front of it, so it is only known to be one when its colon is found.  The
scanner therefore remembers where a key may have begun, one place for each level of brackets, and
puts the `key` token there afterwards.  Such a key has to stand on one line, within 1024 characters.

Where the text cannot be cut into tokens the list ends without `streamEnd`.  A reader gets a token
only once it is certain that no `key` will be put before it, and after the two tokens behind it; so
the tokens that this holds for are all that is left of a text with a fault in it.
-/

set_option autoImplicit false

namespace LanePadding
namespace Document

/-! ## Tokens -/

inductive TokenKind where
  | streamEnd
  | documentStart
  | documentEnd
  | blockSequenceStart
  | blockMappingStart
  | blockEnd
  | flowSequenceStart
  | flowSequenceEnd
  | flowMappingStart
  | flowMappingEnd
  | blockEntry
  | flowEntry
  | key
  | value
  | anchor (name : String)
  | alias (name : String)
  | scalar (text : String) (plain : Bool)
  deriving DecidableEq, Repr

/-- A token with the line on which it begins. -/
structure Token where
  kind : TokenKind
  line : Nat
  deriving DecidableEq, Repr

/-! ## The scanner -/

/-- A place where a key may have begun. -/
structure KeyPlace where
  /-- The number of tokens before it. -/
  token : Nat
  line : Nat
  column : Nat
  /-- Whether nothing but a key can stand there. -/
  required : Bool
  deriving DecidableEq, Repr

/-- The state of the scanner. -/
structure Scanner where
  rest : List Glyph
  tokens : Array Token
  /-- The columns of the open block collections, the innermost first. -/
  indents : List Nat
  /-- Whether a key may begin here. -/
  keyAllowed : Bool
  /-- Where a key may have begun within the innermost brackets. -/
  place : Option KeyPlace
  /-- Where a key may have begun outside of them, for each level of brackets. -/
  outer : List (Option KeyPlace)

namespace Scanner

def start (gs : List Glyph) : Scanner := ⟨gs, #[], [], true, none, []⟩

/-- Whether the scanner is within brackets. -/
def inFlow (s : Scanner) : Bool := !s.outer.isEmpty

/-- The column of the innermost block collection, `-1` outside of all. -/
def indent (s : Scanner) : Int := (s.indents.head?.map Int.ofNat).getD (-1)

def push (s : Scanner) (kind : TokenKind) (line : Nat) : Scanner :=
  { s with tokens := s.tokens.push ⟨kind, line⟩ }

/-- Puts a token before all those from the number `i` on. -/
def insert (s : Scanner) (i : Nat) (kind : TokenKind) (line : Nat) : Scanner :=
  { s with tokens := s.tokens.extract 0 i ++ #[⟨kind, line⟩] ++ s.tokens.extract i s.tokens.size }

/-! ### Indentation -/

/-- Ends the block collections that are indented deeper than `column`. -/
def unroll (column : Int) (line : Nat) (s : Scanner) : Scanner :=
  if s.inFlow then s
  else
    let ended := s.indents.takeWhile fun (n : Nat) => column < n
    { s with
      indents := s.indents.drop ended.length
      tokens := s.tokens ++ (ended.map fun _ => (⟨.blockEnd, line⟩ : Token)).toArray }

/-- Begins a block collection at a column, with its token before the token number `i`, if it is
indented deeper than what surrounds it. -/
def roll (s : Scanner) (column i : Nat) (kind : TokenKind) (line : Nat) : Scanner :=
  if !s.inFlow && s.indent < column then
    { s.insert i kind line with indents := column :: s.indents }
  else s

/-! ### Keys -/

/-- Gives up the place where a key may have begun; that fails if a key is required there. -/
def dropPlace (s : Scanner) : Option Scanner :=
  match s.place with
  | some p => if p.required then none else some { s with place := none }
  | none => some s

/-- Remembers that a key may begin at a glyph. -/
def savePlace (s : Scanner) (g : Glyph) : Option Scanner :=
  if s.keyAllowed then do
    let required := !s.inFlow && s.indent == g.column
    let next ← s.dropPlace
    return { next with place := some ⟨s.tokens.size, g.line, g.column, required⟩ }
  else some s

/-- The place of the key whose colon stands at a glyph, if it is near enough; fails if a required
key is too far away. -/
def keyFor (s : Scanner) (g : Glyph) : Option (Option KeyPlace) :=
  match s.place with
  | none => some none
  | some p =>
    if p.line = g.line ∧ g.column ≤ p.column + 1024 then some (some p)
    else if p.required then none
    else some none

/-! ### Blanks and comments -/

/-- Whether nothing but blanks and breaks stands before the next comment. -/
def commentAhead (gs : List Glyph) : Bool :=
  match gs.dropWhile fun g => isBlank g.char || isBreak g.char with
  | g :: _ => g.char == '#'
  | [] => false

/-- Where a reader between tokens stands. -/
inductive SkipState where
  | blanks
  | comment
  /-- Between two comments. -/
  | comments

/-- Skips blanks, comments and breaks up to the next token.  Tabs are blanks only where no key may
begin; outside of brackets a key may begin after a break. -/
def skip (flow : Bool) (state : SkipState) (keyAllowed : Bool) : List Glyph → Bool × List Glyph
  | [] => (keyAllowed, [])
  | g :: rest =>
    match state with
    | .comment =>
      if isBreak g.char then
        skip flow (if commentAhead rest then .comments else .blanks) (keyAllowed || !flow) rest
      else skip flow .comment keyAllowed rest
    | .comments => skip flow (if g.char == '#' then .comment else .comments) keyAllowed rest
    | .blanks =>
      if g.char == ' ' || (g.char == '\t' && (flow || !keyAllowed)) ||
          (g.char == byteOrderMark && g.column == 0) then
        skip flow .blanks keyAllowed rest
      else if g.char == '#' then skip flow .comment keyAllowed rest
      else if isBreak g.char then skip flow .blanks (keyAllowed || !flow) rest
      else (keyAllowed, g :: rest)

/-! ### Single tokens

Each of these reads a token that begins with the glyph `g`, which stands before `rest`. -/

/-- Ends the text. -/
def streamEnd (s : Scanner) : Option Scanner := do
  let s ← (s.unroll (-1) 0).dropPlace
  return { s.push .streamEnd 0 with keyAllowed := false }

/-- A document mark. -/
def documentMark (s : Scanner) (kind : TokenKind) (g : Glyph) (rest : List Glyph) :
    Option Scanner := do
  let s ← (s.unroll (-1) g.line).dropPlace
  return { s.push kind g.line with keyAllowed := false, rest := rest.drop 2 }

/-- An opening bracket. -/
def openFlow (s : Scanner) (kind : TokenKind) (g : Glyph) (rest : List Glyph) : Option Scanner := do
  let s ← s.savePlace g
  return { s.push kind g.line with
    keyAllowed := true, place := none, outer := s.place :: s.outer, rest }

/-- A closing bracket. -/
def closeFlow (s : Scanner) (kind : TokenKind) (g : Glyph) (rest : List Glyph) :
    Option Scanner := do
  let s ← s.dropPlace
  return { s.push kind g.line with
    keyAllowed := false, place := s.outer.head?.getD s.place, outer := s.outer.tail, rest }

/-- A comma. -/
def flowEntry (s : Scanner) (g : Glyph) (rest : List Glyph) : Option Scanner := do
  let s ← s.dropPlace
  return { s.push .flowEntry g.line with keyAllowed := true, rest }

/-- The dash of a block entry. -/
def blockEntry (s : Scanner) (g : Glyph) (rest : List Glyph) : Option Scanner := do
  if !s.inFlow && !s.keyAllowed then none
  let s ← (s.roll g.column s.tokens.size .blockSequenceStart g.line).dropPlace
  return { s.push .blockEntry g.line with keyAllowed := true, rest }

/-- The question mark of a key. -/
def key (s : Scanner) (g : Glyph) (rest : List Glyph) : Option Scanner := do
  if !s.inFlow && !s.keyAllowed then none
  let s ← (s.roll g.column s.tokens.size .blockMappingStart g.line).dropPlace
  return { s.push .key g.line with keyAllowed := !s.inFlow, rest }

/-- The colon of a value. -/
def value (s : Scanner) (g : Glyph) (rest : List Glyph) : Option Scanner := do
  match ← s.keyFor g with
  | some p =>
    let s := s.insert p.token .key p.line
    let s := s.roll p.column p.token .blockMappingStart p.line
    return { s.push .value g.line with keyAllowed := false, place := none, rest }
  | none =>
    if !s.inFlow && !s.keyAllowed then none
    let s := s.roll g.column s.tokens.size .blockMappingStart g.line
    return { s.push .value g.line with keyAllowed := !s.inFlow, place := none, rest }

/-- Whether a character may stand in the name of an anchor. -/
def isNameChar (c : Char) : Bool := c.isAlphanum || c == '_' || c == '-'

/-- Whether the name of an anchor may end here. -/
def endsName : List Glyph → Bool
  | [] => true
  | g :: rest => gapAhead (g :: rest) || g.char ∈ ['?', ':', ',', ']', '\x7d', '%', '@', '\x60']

/-- An anchor or an alias. -/
def named (s : Scanner) (kind : String → TokenKind) (g : Glyph) (rest : List Glyph) :
    Option Scanner := do
  let s ← s.savePlace g
  let name := rest.takeWhile fun g => isNameChar g.char
  let rest := rest.drop name.length
  if name.isEmpty || !endsName rest then none
  return { s.push (kind (String.ofList (name.map Glyph.char))) g.line with
    keyAllowed := false, rest }

/-- The token of a scalar whose text was read in reverse. -/
def pushScalar (s : Scanner) (text : List Char) (plain : Bool) (g : Glyph) : Scanner :=
  s.push (.scalar (String.ofList text.reverse) plain) g.line

/-- A block scalar. -/
def block (s : Scanner) (folded : Bool) (g : Glyph) (rest : List Glyph) : Option Scanner := do
  let s ← s.dropPlace
  let (text, rest) ← blockScalar folded s.indent rest
  return { s.pushScalar text false g with keyAllowed := true, rest }

/-- A quoted scalar. -/
def quoted (s : Scanner) (g : Glyph) (rest : List Glyph) : Option Scanner := do
  let s ← s.savePlace g
  let (text, rest) ←
    if g.char == '\'' then singleQuoted [] .empty rest else doubleQuoted .text [] .empty rest
  return { s.pushScalar text false g with keyAllowed := false, rest }

/-- A plain scalar. -/
def plain (s : Scanner) (g : Glyph) (rest : List Glyph) : Option Scanner := do
  let s ← s.savePlace g
  let (text, gap, rest) ← plainText s.inFlow (s.indent + 1) [] .empty (g :: rest)
  return { s.pushScalar text true g with keyAllowed := gap.broken, rest }

/-- Whether a plain scalar may begin with the character `c`. -/
def beginsPlain (flow : Bool) (c : Char) (rest : List Glyph) : Bool :=
  match c with
  | '-' => !gapAhead rest
  | '?' | ':' => !flow && !gapAhead rest
  | c =>
    c ∉ [',', '[', ']', '\x7b', '\x7d', '#', '&', '*', '!', '|', '>', '\'', '"', '%',
      '@', '\x60'] && !isBlank c

/-- Reads the next token, which begins with the glyph `g`. -/
def token (s : Scanner) (g : Glyph) (rest : List Glyph) : Option Scanner :=
  let flow := s.inFlow
  if isMark '-' (g :: rest) then s.documentMark .documentStart g rest
  else if isMark '.' (g :: rest) then s.documentMark .documentEnd g rest
  else if beginsPlain flow g.char rest then s.plain g rest
  else
    match g.char with
    | '[' => s.openFlow .flowSequenceStart g rest
    | ']' => s.closeFlow .flowSequenceEnd g rest
    | '\x7b' => s.openFlow .flowMappingStart g rest
    | '\x7d' => s.closeFlow .flowMappingEnd g rest
    | ',' => s.flowEntry g rest
    | '-' => s.blockEntry g rest
    | '?' => s.key g rest
    | ':' => s.value g rest
    | '&' => s.named .anchor g rest
    | '*' => s.named .alias g rest
    | '\'' | '"' => s.quoted g rest
    | '|' => if flow then none else s.block false g rest
    | '>' => if flow then none else s.block true g rest
    | _ => none

/-- The tokens that a reader can get although the text cannot be scanned any further. -/
def readable (s : Scanner) : List Token :=
  let places := (s.place :: s.outer).filterMap fun p => p.map KeyPlace.token
  s.tokens.toList.take (places.foldl min (s.tokens.size - 2))

/-- Reads all tokens. -/
def run (s : Scanner) : List Token :=
  let (keyAllowed, rest) := skip s.inFlow .blanks s.keyAllowed s.rest
  let next := { s with keyAllowed, rest }
  match rest with
  | [] =>
    match next.streamEnd with
    | some done => done.tokens.toList
    | none => s.readable
  | g :: rest =>
    match (next.unroll g.column g.line).token g rest with
    | none => s.readable
    | some next => if next.rest.length < s.rest.length then run next else s.readable
termination_by s.rest.length

end Scanner

/-- The tokens of a text, up to the first fault. -/
def Token.scan (text : String) : List Token :=
  match glyphs? text with
  | some gs => (Scanner.start gs).run
  | none => []

end Document
end LanePadding
