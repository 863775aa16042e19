import LanePadding.Document.Token

/-!
# The tree of a document

`Tree.ofTokens` reads the first document of a list of tokens.  Every function returns the tokens
that it leaves together with a proof that they are no more than it was given, which is why reading
ends.  Where a function hands on all its tokens, the number added to the measure falls.

A node may be named by an anchor and repeated by an alias.  The tree of the named node stands in the
alias itself; an alias may not stand within the node that it names.
-/

set_option autoImplicit false

namespace LanePadding
namespace Document

/-- A node of a document, with the line on which it begins. -/
inductive Tree where
  | scalar (line : Nat) (text : String) (plain : Bool)
  | sequence (line : Nat) (items : List Tree)
  | mapping (line : Nat) (entries : List (Tree × Tree))
  | alias (line : Nat) (name : String) (target : Tree)

namespace Tree

/-- The node that stands where nothing is written. -/
def empty (line : Nat) : Tree := .scalar line "" true

def line : Tree → Nat
  | .scalar l _ _ | .sequence l _ | .mapping l _ | .alias l _ _ => l

/-- The node itself, or the one that it repeats. -/
def target : Tree → Tree
  | .alias _ _ t => t
  | t => t

end Tree

/-- The nodes named so far, the last one first. -/
abbrev Anchors : Type := List (String × Tree)

/-- Something read from tokens, and the tokens that are left. -/
structure Reading (α : Type) (ts : List Token) where
  value : α
  anchors : Anchors
  rest : List Token
  le : rest.length ≤ ts.length

namespace Reading

variable {α β : Type} {ts us : List Token}

/-- A reading of the end of a list as one of the whole list. -/
def widen (r : Reading α us) (h : us.length ≤ ts.length) : Reading α ts :=
  { r with le := Nat.le_trans r.le h }

def map (f : α → β) (r : Reading α ts) : Reading β ts := { r with value := f r.value }

end Reading

namespace TokenKind

/-- Whether a token begins what a node holds. -/
def beginsContent (block indentless : Bool) : TokenKind → Bool
  | .scalar _ _ | .flowSequenceStart | .flowMappingStart => true
  | .blockSequenceStart | .blockMappingStart => block
  | .blockEntry => indentless
  | _ => false

/-- Whether a token ends an entry of a block sequence. -/
def endsBlockItem : TokenKind → Bool
  | .blockEntry | .blockEnd => true
  | _ => false

/-- Whether a token ends an entry of a block sequence that is indented no deeper than the mapping
around it. -/
def endsIndentlessItem : TokenKind → Bool
  | .blockEntry | .key | .value | .blockEnd => true
  | _ => false

/-- Whether a token ends a key or a value of a block mapping. -/
def endsBlockPart : TokenKind → Bool
  | .key | .value | .blockEnd => true
  | _ => false

/-- Whether a token ends a key within braces. -/
def endsFlowKey : TokenKind → Bool
  | .value | .flowEntry | .flowMappingEnd => true
  | _ => false

/-- Whether a token ends a value within brackets. -/
def endsFlowValue : TokenKind → Bool
  | .flowEntry | .flowSequenceEnd | .flowMappingEnd => true
  | _ => false

end TokenKind

mutual

/-- Reads a node.  Block collections may stand only where `block` holds, and a block sequence that
is indented no deeper than what surrounds it only where `indentless` does. -/
def readNode (block indentless : Bool) (anchors : Anchors) (ts : List Token) :
    Option (Reading Tree ts) :=
  match ts with
  | [] => none
  | t :: rest =>
    match t.kind with
    | .alias name =>
      (anchors.lookup name).map fun target => ⟨.alias t.line name target, anchors, rest, by simp⟩
    | .anchor name => do
      let next ← rest.head?
      if next.kind.beginsContent block indentless then
        let r ← readContent t.line block indentless (anchors.filter fun a => a.1 != name) rest
        return { r.widen (by simp) with anchors := (name, r.value) :: r.anchors }
      else
        let node := Tree.empty t.line
        return ⟨node, (name, node) :: anchors, rest, by simp⟩
    | _ => readContent t.line block indentless anchors (t :: rest)
termination_by 6 * ts.length + 2

/-- Reads what a node holds that begins on the given line. -/
def readContent (line : Nat) (block indentless : Bool) (anchors : Anchors) (ts : List Token) :
    Option (Reading Tree ts) :=
  match ts with
  | [] => none
  | t :: rest =>
    match t.kind with
    | .scalar text plain => some ⟨.scalar line text plain, anchors, rest, by simp⟩
    | .flowSequenceStart => do
      let r ← readFlowItems true anchors [] rest
      return (r.map (.sequence line)).widen (by simp)
    | .flowMappingStart => do
      let r ← readFlowEntries true anchors [] rest
      return (r.map (.mapping line)).widen (by simp)
    | .blockSequenceStart => do
      if !block then none
      let r ← readBlockItems anchors [] rest
      return (r.map (.sequence line)).widen (by simp)
    | .blockMappingStart => do
      if !block then none
      let r ← readBlockEntries anchors [] rest
      return (r.map (.mapping line)).widen (by simp)
    | .blockEntry => do
      if !indentless then none
      let r ← readIndentlessItems anchors [] (t :: rest)
      return r.map (.sequence line)
    | _ => none
termination_by 6 * ts.length + 1

/-- Reads a node that may be left out: nothing is written where a token follows that `ends` it. -/
def readOptional (ends : TokenKind → Bool) (block indentless : Bool) (line : Nat)
    (anchors : Anchors) (ts : List Token) : Option (Reading Tree ts) :=
  match ts with
  | [] => none
  | t :: rest =>
    if ends t.kind then some ⟨.empty line, anchors, t :: rest, by simp⟩
    else readNode block indentless anchors (t :: rest)
termination_by 6 * ts.length + 3

/-- Reads a value behind its colon; without a colon there is no value. -/
def readValue (ends : TokenKind → Bool) (block : Bool) (anchors : Anchors) (ts : List Token) :
    Option (Reading Tree ts) :=
  match ts with
  | [] => none
  | t :: rest =>
    if t.kind = .value then do
      let r ← readOptional ends block block t.line anchors rest
      return r.widen (by simp)
    else some ⟨.empty t.line, anchors, t :: rest, by simp⟩
termination_by 6 * ts.length + 0

/-- Reads the entries of a block sequence. -/
def readBlockItems (anchors : Anchors) (items : List Tree) (ts : List Token) :
    Option (Reading (List Tree) ts) :=
  match ts with
  | [] => none
  | t :: rest =>
    match t.kind with
    | .blockEnd => some ⟨items.reverse, anchors, rest, by simp⟩
    | .blockEntry => do
      let r ← readOptional TokenKind.endsBlockItem true false t.line anchors rest
      have := r.le
      let s ← readBlockItems r.anchors (r.value :: items) r.rest
      return s.widen (by simp; omega)
    | _ => none
termination_by 6 * ts.length + 0

/-- Reads the entries of a block sequence that nothing but the next key ends. -/
def readIndentlessItems (anchors : Anchors) (items : List Tree) (ts : List Token) :
    Option (Reading (List Tree) ts) :=
  match ts with
  | [] => none
  | t :: rest =>
    if t.kind = .blockEntry then do
      let r ← readOptional TokenKind.endsIndentlessItem true false t.line anchors rest
      have := r.le
      let s ← readIndentlessItems r.anchors (r.value :: items) r.rest
      return s.widen (by simp; omega)
    else some ⟨items.reverse, anchors, t :: rest, by simp⟩
termination_by 6 * ts.length + 0

/-- Reads the entries of a block mapping. -/
def readBlockEntries (anchors : Anchors) (entries : List (Tree × Tree)) (ts : List Token) :
    Option (Reading (List (Tree × Tree)) ts) :=
  match ts with
  | [] => none
  | t :: rest =>
    match t.kind with
    | .blockEnd => some ⟨entries.reverse, anchors, rest, by simp⟩
    | .key => do
      let k ← readOptional TokenKind.endsBlockPart true true t.line anchors rest
      have := k.le
      let v ← readValue TokenKind.endsBlockPart true k.anchors k.rest
      have := v.le
      let s ← readBlockEntries v.anchors ((k.value, v.value) :: entries) v.rest
      return s.widen (by simp; omega)
    | _ => none
termination_by 6 * ts.length + 0

/-- Reads the items within square brackets; all but the first stand behind a comma. -/
def readFlowItems (first : Bool) (anchors : Anchors) (items : List Tree) (ts : List Token) :
    Option (Reading (List Tree) ts) :=
  match ts with
  | [] => none
  | t :: rest =>
    if t.kind = .flowSequenceEnd then some ⟨items.reverse, anchors, rest, by simp⟩
    else if first then readFlowItem anchors items (t :: rest)
    else if t.kind = .flowEntry then do
      let r ← readFlowItem anchors items rest
      return r.widen (by simp)
    else none
termination_by 6 * ts.length + if first then 5 else 0

/-- Reads an item within square brackets and those behind it.  A key with its value is a mapping of
its own. -/
def readFlowItem (anchors : Anchors) (items : List Tree) (ts : List Token) :
    Option (Reading (List Tree) ts) :=
  match ts with
  | [] => none
  | t :: rest =>
    match t.kind with
    | .flowSequenceEnd => some ⟨items.reverse, anchors, rest, by simp⟩
    | .key => do
      let k ← readNode false false anchors rest
      have := k.le
      let v ← readValue TokenKind.endsFlowValue false k.anchors k.rest
      have := v.le
      let item := Tree.mapping t.line [(k.value, v.value)]
      let s ← readFlowItems false v.anchors (item :: items) v.rest
      return s.widen (by simp; omega)
    | _ => do
      let r ← readNode false false anchors (t :: rest)
      have : r.rest.length ≤ rest.length + 1 := r.le
      let s ← readFlowItems false r.anchors (r.value :: items) r.rest
      return s.widen r.le
termination_by 6 * ts.length + 4

/-- Reads the entries within braces; all but the first stand behind a comma. -/
def readFlowEntries (first : Bool) (anchors : Anchors) (entries : List (Tree × Tree))
    (ts : List Token) : Option (Reading (List (Tree × Tree)) ts) :=
  match ts with
  | [] => none
  | t :: rest =>
    if t.kind = .flowMappingEnd then some ⟨entries.reverse, anchors, rest, by simp⟩
    else if first then readFlowEntry anchors entries (t :: rest)
    else if t.kind = .flowEntry then do
      let r ← readFlowEntry anchors entries rest
      return r.widen (by simp)
    else none
termination_by 6 * ts.length + if first then 5 else 0

/-- Reads an entry within braces and those behind it.  A node without a colon is a key without a
value. -/
def readFlowEntry (anchors : Anchors) (entries : List (Tree × Tree)) (ts : List Token) :
    Option (Reading (List (Tree × Tree)) ts) :=
  match ts with
  | [] => none
  | t :: rest =>
    match t.kind with
    | .flowMappingEnd => some ⟨entries.reverse, anchors, rest, by simp⟩
    | .key => do
      let k ← readOptional TokenKind.endsFlowKey false false t.line anchors rest
      have := k.le
      let v ← readValue TokenKind.endsFlowValue false k.anchors k.rest
      have := v.le
      let s ← readFlowEntries false v.anchors ((k.value, v.value) :: entries) v.rest
      return s.widen (by simp; omega)
    | _ => do
      let k ← readNode false false anchors (t :: rest)
      have : k.rest.length ≤ rest.length + 1 := k.le
      let s ← readFlowEntries false k.anchors ((k.value, .empty t.line) :: entries) k.rest
      return s.widen k.le
termination_by 6 * ts.length + 4

end

/-- Whether a token ends a document in which nothing is written. -/
def TokenKind.endsDocument : TokenKind → Bool
  | .documentStart | .documentEnd | .streamEnd => true
  | _ => false

/-- The outcome of reading the first document of a text. -/
inductive FirstDocument where
  /-- The text is not well formed. -/
  | malformed
  /-- The text holds no document. -/
  | absent
  | found (root : Tree)

/-- Reads the first document.  The token behind it is not part of it, but has to be there. -/
def Tree.ofTokens (ts : List Token) : FirstDocument :=
  match ts with
  | [] => .malformed
  | t :: rest =>
    if t.kind = .streamEnd then .absent
    else
      let body := if t.kind = .documentStart then rest else t :: rest
      let ends := if t.kind = .documentStart then TokenKind.endsDocument else fun _ => false
      match readOptional ends true false t.line [] body with
      | none => .malformed
      | some r => if r.rest.isEmpty then .malformed else .found r.value

end Document
end LanePadding
