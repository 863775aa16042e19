import LanePadding.Scalar.Basic

/-!
# Platforms

A platform knows the lowest and the highest value of an element type on the target: the sentinels
that a maximum or minimum over real data cannot go beyond.  It may have none for an element type,
and then says why in its own words.
-/

set_option autoImplicit false

namespace LanePadding

/-- What is known about the target. -/
structure Platform where
  lowest : DType → Except String Scalar
  highest : DType → Except String Scalar

namespace Platform

/-- The wording of the platform that knows no more than the element types do. -/
def defaultReason (cause : ScalarError) : String := "DefaultPlatform: " ++ cause.message

/-- The finite limits of each element type. -/
def default : Platform where
  lowest d := (d.lowest.map fun v => ⟨d, v⟩).mapError defaultReason
  highest d := (d.highest.map fun v => ⟨d, v⟩).mapError defaultReason

instance : Inhabited Platform := ⟨default⟩

end Platform
end LanePadding
