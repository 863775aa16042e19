import LanePadding.Description.Basic
import LanePadding.Document.Tree
import LanePadding.Document.Value

/-!
# Descriptions as documents

`Description.parse` reads a description from the text of a document.  Fields are looked up by name,
and a field of the wrong kind or with an unknown name is noted as a `Mismatch`; all mismatches of a
document are reported together.  Only a faulty axis stops the reading at once.

A scalar fills a text with what is written, whatever it looks like.  Null leaves a field as it is,
and is left out of a list.
-/

set_option autoImplicit false

namespace LanePadding

open Number
open Document (Tree Value)

/-! ## Failures -/

/-- The kinds of things that a description is made of. -/
inductive Shape where
  | text
  | truth
  | integer
  | texts
  | integers
  | axes
  | node
  | nodes
  | description
  deriving DecidableEq, Repr

/-- How the kinds of things are called in reports. -/
def Shape.name : Shape → String
  | .text => "string"
  | .truth => "bool"
  | .integer => "int"
  | .texts => "[]string"
  | .integers => "[]int"
  | .axes => "[]graphdef.Axis"
  | .node => "graphdef.NodeDef"
  | .nodes => "[]graphdef.NodeDef"
  | .description => "graphdef.Def"

/-- Something in a document that does not fit a description. -/
inductive Mismatch where
  | unknownField (line : Nat) (field : String) (shape : Shape)
  /-- A scalar that is not of the expected kind. -/
  | scalar (line : Nat) (tag text : String) (shape : Shape)
  | sequence (line : Nat) (shape : Shape)
  | mapping (line : Nat) (shape : Shape)
  | repeatedKey (line : Nat) (key : String) (first : Nat)
  deriving DecidableEq, Repr

/-- The first characters of a text, as far as they fill the given number of bytes; a character cut
short is shown as a replacement character for each of its bytes. -/
def firstBytes : Nat → List Char → List Char
  | _, [] => []
  | n, c :: cs =>
    if c.utf8Size ≤ n then c :: firstBytes (n - c.utf8Size) cs
    else List.replicate n (Char.ofNat 0xfffd)

/-- A text as shown in a report: at most ten bytes of it. -/
def excerpt (text : String) : String :=
  if 10 < text.utf8ByteSize then String.ofList (firstBytes 7 text.toList) ++ "..." else text

def Mismatch.message : Mismatch → String
  | .unknownField line field shape =>
    "line " ++ Text.integerText line ++ ": field " ++ field ++ " not found in type " ++ shape.name
  | .scalar line tag text shape =>
    "line " ++ Text.integerText line ++ ": cannot unmarshal " ++ tag ++ " \x60" ++ excerpt text ++
      "\x60 into " ++ shape.name
  | .sequence line shape =>
    "line " ++ Text.integerText line ++ ": cannot unmarshal !!seq into " ++ shape.name
  | .mapping line shape =>
    "line " ++ Text.integerText line ++ ": cannot unmarshal !!map into " ++ shape.name
  | .repeatedKey line key first =>
    "line " ++ Text.integerText line ++ ": mapping key " ++ Text.quote key ++
      " already defined at line " ++ Text.integerText first

/-- An axis that cannot be read. -/
inductive AxisFault where
  | notScalar (line : Nat)
  | invalid (line : Nat) (cause : AxisError)
  deriving DecidableEq, Repr

def AxisFault.message : AxisFault → String
  | .notScalar line =>
    "line " ++ Text.integerText line ++ ": axis must be a scalar like 16 or \"16/15\""
  | .invalid line cause => "line " ++ Text.integerText line ++ ": " ++ cause.message

/-- Why a text is no description. -/
inductive ParseError where
  /-- The text is no well-formed document. -/
  | malformed
  /-- The text holds no document. -/
  | noDocument
  | mismatches (found : List Mismatch)
  | axis (fault : AxisFault)
  | noNodes (name : String)
  deriving DecidableEq, Repr

def ParseError.message : ParseError → String
  | .malformed => "failed to parse graph description: yaml: syntax error"
  | .noDocument => "failed to parse graph description: EOF"
  | .mismatches found =>
    "failed to parse graph description: yaml: unmarshal errors:" ++
      String.join (found.map fun m => "\n  " ++ m.message)
  | .axis fault => "failed to parse graph description: " ++ fault.message
  | .noNodes name => "graph description " ++ Text.quote name ++ " has no nodes"

/-! ## Decoding -/

/-- Reads part of a document and notes what does not fit. -/
abbrev Decode (α : Type) : Type := ExceptT AxisFault (StateM (List Mismatch)) α

namespace Decode

def note (m : Mismatch) : Decode Unit := modify fun found => found ++ [m]

/-- What tells keys of a mapping apart: a scalar by its text, an alias by its name, and collections
not at all. -/
def keyText : Tree → String × Nat
  | .scalar _ text _ => (text, 0)
  | .sequence _ _ => ("", 1)
  | .mapping _ _ => ("", 2)
  | .alias _ name _ => (name, 3)

/-- The repetitions of keys in a mapping, each with the key that it repeats. -/
def repeatedKeys : List (Tree × Tree) → List Mismatch
  | [] => []
  | (key, _) :: rest =>
    (rest.filterMap fun (other, _) =>
      if keyText other = keyText key then some (.repeatedKey other.line (keyText other).1 key.line)
      else none) ++ repeatedKeys rest

/-- Notes the repetitions of keys in a mapping, and tells whether there are none. -/
def uniqueKeys (entries : List (Tree × Tree)) : Decode Bool := do
  let found := repeatedKeys entries
  found.forM note
  return found.isEmpty

/-- Notes that a collection stands where something else is expected. -/
def misplaced (shape : Shape) (t : Tree) : Decode Unit := do
  match t with
  | .sequence line _ => note (.sequence line shape)
  | .mapping line entries => if ← uniqueKeys entries then note (.mapping line shape)
  | _ => pure ()

/-- What a scalar means: quotes make it a text. -/
def scalarValue (text : String) (plain : Bool) : Value := if plain then .ofPlain text else .text

/-- Reads a scalar through `read`, which says what it stands for, if it stands for anything.  Null
stands for nothing. -/
def scalar {α : Type} (shape : Shape) (read : String → Value → Option α) (t : Tree) :
    Decode (Option α) := do
  match t.target with
  | .scalar line text plain =>
    match scalarValue text plain with
    | .null => return none
    | value =>
      match read text value with
      | some a => return some a
      | none =>
        note (.scalar line value.tag text shape)
        return none
  | other =>
    misplaced shape other
    return none

def text : Tree → Decode (Option String) := scalar .text fun s _ => some s

/-- The words for truth values, besides the values themselves. -/
def truthWord? (s : String) : Option Bool :=
  if s ∈ ["y", "Y", "yes", "Yes", "YES", "on", "On", "ON"] then some true
  else if s ∈ ["n", "N", "no", "No", "NO", "off", "Off", "OFF"] then some false
  else none

def truth : Tree → Decode (Option Bool) :=
  scalar .truth fun s value =>
    match value with
    | .bool b => some b
    | .text => truthWord? s
    | _ => none

/-- The integer that a number stands for: a fraction is cut off, and what lies below the 64-bit
integers is the lowest one, as is `2^63`. -/
def integerOf? : Value → Option Int
  | .integer z => if z < Text.int64End then some z else none
  | .float v =>
    if v.le (Double.ofInt Text.int64End) then
      if v.lt (Double.ofInt Text.int64End) && (Double.ofInt (-Text.int64End)).le v then some v.toInt
      else some (-Text.int64End)
    else none
  | _ => none

def integer : Tree → Decode (Option Int) := scalar .integer fun _ value => integerOf? value

/-- Reads a list, leaving out the items for which there is nothing. -/
def list {α : Type} (shape : Shape) (item : Tree → Decode (Option α)) (t : Tree) :
    Decode (Option (List α)) := do
  match t.target with
  | .sequence _ items => return some ((← items.mapM item).filterMap id)
  | other => scalar shape (fun _ _ => none) other

/-- Reads an axis. -/
def axis (t : Tree) : Decode (Option Axis) := do
  match t.target with
  | .scalar line s plain =>
    match scalarValue s plain with
    | .null => return none
    | _ =>
      match Axis.parse s with
      | .ok a => return some a
      | .error cause => throw (.invalid line cause)
  | other => throw (.notScalar other.line)

/-- Fills the fields of a record from a mapping.  `set` changes one field, if there is one of that
name. -/
def record {α : Type} (shape : Shape) (blank : α) (set : String → Option (α → Tree → Decode α))
    (t : Tree) : Decode (Option α) := do
  match t.target with
  | .mapping _ entries =>
    if ← uniqueKeys entries then
      return some <| ← entries.foldlM (fun a (key, value) => do
        match ← text key with
        | none => return a
        | some name =>
          match set name with
          | some change => change a value
          | none =>
            note (.unknownField key.line name shape)
            return a) blank
    else return none
  | other => scalar shape (fun _ _ => none) other

/-- Sets a field to what is read for it, if anything is. -/
def field {α β : Type} (read : Tree → Decode (Option β)) (put : α → β → α) (a : α) (t : Tree) :
    Decode α := do
  match ← read t with
  | some b => return put a b
  | none => return a

/-- The fields of a definition. -/
def nodeField : String → Option (NodeDef → Tree → Decode NodeDef)
  | "name" => some (field text fun d s => { d with name := s })
  | "op" => some (field text fun d s => { d with op := s })
  | "dtype" => some (field text fun d s => { d with dtype := s })
  | "axes" => some (field (list .axes axis) fun d xs => { d with axes := xs })
  | "value" => some (field text fun d s => { d with value := s })
  | "padding" => some (field text fun d s => { d with padding := s })
  | "inputs" => some (field (list .texts text) fun d xs => { d with inputs := xs })
  | "reduce_axes" => some (field (list .integers integer) fun d xs => { d with reduceAxes := xs })
  | "keep_dims" => some (field truth fun d b => { d with keepDims := b })
  | "mode" => some (field text fun d s => { d with mode := s })
  | _ => none

def node : Tree → Decode (Option NodeDef) := record .node .blank nodeField

/-- The fields of a description. -/
def descriptionField : String → Option (Description → Tree → Decode Description)
  | "name" => some (field text fun d s => { d with name := s })
  | "nodes" => some (field (list .nodes node) fun d xs => { d with nodes := xs })
  | "outputs" => some (field (list .texts text) fun d xs => { d with outputs := xs })
  | _ => none

def description : Tree → Decode (Option Description) := record .description .blank descriptionField

end Decode

/-- Reads a description from the root of a document; an empty document describes nothing. -/
def Description.ofTree (root : Tree) : Except ParseError Description :=
  match (ExceptT.run (Decode.description root)).run [] with
  | (.error fault, _) => .error (.axis fault)
  | (.ok d, []) => .ok (d.getD .blank)
  | (.ok _, found) => .error (.mismatches found)

/-- Reads a description from a text; there must be at least one definition. -/
def Description.parse (text : String) : Except ParseError Description :=
  match Tree.ofTokens (Document.Token.scan text) with
  | .malformed => .error .malformed
  | .absent => .error .noDocument
  | .found root => do
    let d ← ofTree root
    if d.nodes.isEmpty then throw (.noNodes d.name) else return d

end LanePadding
