import LanePadding.Graph.Build

/-!
# How a consumer reads the lanes of an operand

A pointwise consumer reads an operand with the axes of both aligned to the right.  An operand's axis
of logical extent one that meets a wider axis is *replicated*: its single lane fills every lane of
the consumer's axis, padding lanes included, which then hold real data of the operand.  This happens
both when the logical extent grows and when only the number of stored lanes does.

If a replicated axis is itself stored with several lanes, its padding lanes must first hold a copy
of lane 0; these are the `laneFixAxes`.
-/

set_option autoImplicit false

namespace LanePadding

/-- Whether the lanes of `axis` are replicated to fill `out`. -/
def Axis.isBroadcast (axis out : Axis) : Bool :=
  axis.extent = 1 && (1 < out.extent || axis.size < out.size)

/-- An axis of a consumer together with the axis of the operand that it reads. -/
structure AlignedAxis where
  /-- Position of the axis in the operand; none if the operand has no axis there. -/
  position : Option Nat
  /-- The axis of the operand, a single lane if it has none. -/
  own : Axis
  /-- The axis of the consumer. -/
  out : Axis

/-- Whether the operand's axis is replicated. -/
def AlignedAxis.isBroadcast (a : AlignedAxis) : Bool := a.own.isBroadcast a.out

namespace Node

/-- The axes of a consumer, each with the axis of the operand `x` that it reads. -/
def alignedAxes (consumer x : Node) : List AlignedAxis :=
  (List.range consumer.rank).map fun i =>
    { position := if consumer.rank ≤ i + x.rank then some (i + x.rank - consumer.rank) else none
      own := (expandToRank x.axes consumer.rank).getD i .unit
      out := consumer.axes.getD i .unit }

/-- The axes of `x` that are replicated into the axes of the consumer. -/
def replicatedAxes (consumer x : Node) : List Nat :=
  (consumer.alignedAxes x).filterMap fun a => if a.isBroadcast then a.position else none

/-- The axes of `x` whose replication reaches padding lanes of the consumer, none for each axis that
`x` does not have. -/
def axesIntoPadding (consumer x : Node) : List (Option Nat) :=
  (consumer.alignedAxes x).filterMap fun a =>
    if a.out.isPadded && a.isBroadcast then some a.position else none

/-- Whether padding lanes of the consumer are computed from padding lanes of `x`. -/
def paddingReadsPadding (consumer x : Node) : Bool :=
  (consumer.alignedAxes x).any fun a => a.out.isPadded && !a.isBroadcast

/-- Whether the consumer reads padding lanes of `x` that are not overwritten with copies of lane
0. -/
def readsOwnPadding (consumer x : Node) : Bool :=
  (consumer.alignedAxes x).any fun a => a.own.isPadded && !a.isBroadcast

/-- Those of the given axes that are stored with more than one lane. -/
def laneFixAxes (x : Node) (replicated : List Nat) : List Nat :=
  replicated.filter fun i => 1 < (x.axes.getD i .unit).size

end Node
end LanePadding
