import LanePadding.Text.Blank
import LanePadding.Text.Integer

/-!
# Axes and their padding lanes

An axis of a tensor has a logical `extent` and is stored with `size` lanes, the extent rounded up to
the block width of the hardware.  The lanes from `extent` up to `size` are padding.

In texts an axis is its size, or `size/extent` if it has padding lanes.
-/

set_option autoImplicit false

namespace LanePadding

/-- One axis of a tensor. -/
structure Axis where
  /-- Number of lanes stored. -/
  size : Int
  /-- Logical extent. -/
  extent : Int
  deriving DecidableEq, Repr, Inhabited

/-- Why an axis cannot be made. -/
inductive AxisError where
  /-- A block needs a positive extent and a positive width. -/
  | badBlock (extent width : Int)
  /-- The extents are not `0 < extent ≤ size`. -/
  | badExtents (size extent : Int)
  /-- The size is not an integer. -/
  | badSizeText (text : String) (cause : Text.IntegerError)
  /-- The logical extent is not an integer. -/
  | badExtentText (text : String) (cause : Text.IntegerError)
  /-- The extents in the text are not `0 < extent ≤ size`. -/
  | badExtentsText (text : String)
  deriving DecidableEq, Repr

namespace AxisError

/-- The condition that extents have to meet. -/
def condition : String := "original extent must be positive and not larger than the size"

def message : AxisError → String
  | .badBlock extent width =>
    "padding.Block(" ++ Text.integerText extent ++ ", " ++ Text.integerText width ++
      "): original extent and block width must be positive"
  | .badExtents size extent =>
    "invalid axis " ++ Text.integerText size ++ "/" ++ Text.integerText extent ++ ": " ++ condition
  | .badSizeText text cause => "invalid axis " ++ Text.quote text ++ ": " ++ cause.message
  | .badExtentText text cause =>
    "invalid original extent in axis " ++ Text.quote text ++ ": " ++ cause.message
  | .badExtentsText text => "invalid axis " ++ Text.quote text ++ ": " ++ condition

end AxisError

namespace Axis

/-- An axis without padding lanes. -/
def aligned (size : Int) : Axis := ⟨size, size⟩

/-- The single lane that stands for a missing axis. -/
def unit : Axis := aligned 1

/-- An axis of the given extent, stored in whole blocks of `width` lanes.  Sizes are 64-bit
integers. -/
def block (extent width : Int) : Except AxisError Axis :=
  if width ≤ 0 ∨ extent ≤ 0 then .error (.badBlock extent width)
  else
    let reach := Text.wrap (extent + width - 1)
    .ok ⟨Text.wrap (reach.tdiv width * width), extent⟩

/-- The axis has at least one real lane and stores all of them. -/
def Valid (a : Axis) : Prop := 0 < a.extent ∧ a.extent ≤ a.size

instance (a : Axis) : Decidable a.Valid := inferInstanceAs (Decidable (_ ∧ _))

/-- Whether the axis has padding lanes. -/
def isPadded (a : Axis) : Bool := a.extent < a.size

def text (a : Axis) : String :=
  if a.isPadded then Text.integerText a.size ++ "/" ++ Text.integerText a.extent
  else Text.integerText a.size

/-- The characters before the first slash, and those after it if there is one. -/
def splitSlash (cs : List Char) : List Char × Option (List Char) :=
  (cs.takeWhile (· ≠ '/'), (cs.dropWhile (· ≠ '/')).tail?)

/-- Reads `size` or `size/extent`, with blanks allowed around each number. -/
def parse (input : String) : Except AxisError Axis :=
  let cs := Text.trimChars input.toList
  let text := String.ofList cs
  let (sizeChars, extentChars?) := splitSlash cs
  match Text.parseInteger (String.ofList (Text.trimChars sizeChars)) with
  | .error cause => .error (.badSizeText text cause)
  | .ok size =>
    let extent? : Except Text.IntegerError Int :=
      match extentChars? with
      | none => .ok size
      | some chars => Text.parseInteger (String.ofList (Text.trimChars chars))
    match extent? with
    | .error cause => .error (.badExtentText text cause)
    | .ok extent =>
      if (Axis.mk size extent).Valid then .ok ⟨size, extent⟩ else .error (.badExtentsText text)

end Axis
end LanePadding
