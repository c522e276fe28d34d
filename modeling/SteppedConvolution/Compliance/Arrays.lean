import SteppedConvolution.Compliance.Report
import SteppedConvolution.Shaped.Stretch

/-! # Evidence in arrays

The checks on what a caller gives, which need not be flat. Lengths are numbers of
rows, errors are taken over all entries, and only single numbers are positions.
-/

namespace SteppedConvolution

variable {K : Type} [Scalar K]

/-- What the checks look at, as a caller gives it. -/
structure EvidenceInput (K : Type) where
  x : Input K
  h : Input K
  nx : Input K
  nh : Input K
  reference : Input K
  positions : Input K
  output : Input K
  /-- How many leading rows of the output are claimed to be revealed. -/
  revealed : Whole

namespace EvidenceInput

/-- Refuse positions whose ends are no single numbers. Where there are no positions, there is
nothing to refuse. -/
def requireSingleEnds (nx nh positions : Shaped K) : Except (Fault K) Unit :=
  if positions.entries = [] then .ok ()
  else do
    let rowX ← Fault.require .noSuchEntry nx.rowShape?
    let rowH ← Fault.require .noSuchEntry nh.rowShape?
    let sum ← Fault.require .incompatibleShapes (Shaped.commonShape? rowX rowH)
    let row ← Fault.require .noSuchEntry positions.rowShape?
    let difference ← Fault.require .incompatibleShapes (Shaped.commonShape? row sum)
    if difference = [] then .ok ()
    else if Shaped.volume difference = 1 then .error (.plain .arrayForNumber)
    else .error (.plain .ambiguousCondition)

/-- The error of the leading rows of an output; it has no bound unless there are as many rows as
in the reference. -/
def rowError (count : Nat) (output reference : Shaped K) : Deviation K :=
  if output.rowCount? ≠ reference.rowCount? then .unbounded
  else Deviation.between (output.leadingRows count) (reference.leadingRows count)

/-- All checks on what a caller gives. -/
def report (tolerance : K) (e : EvidenceInput K) : Except (Fault K) (Report K) := do
  let x ← Samples.shapedInput e.x
  let h ← Samples.shapedInput e.h
  let nx ← Samples.shapedInput e.nx
  let nh ← Samples.shapedInput e.nh
  let reference ← Samples.shapedInput e.reference
  let positions ← Samples.shapedInput e.positions
  let output ← Samples.shapedInput e.output
  let countX ← Fault.require .noLength x.rowCount?
  let countH ← Fault.require .noLength h.rowCount?
  let total ← Fault.require .noLength reference.rowCount?
  let hs ← Samples.ofShaped "x" h
  let xs ← Samples.ofShaped "h" x
  let evidence : Evidence K :=
    { x := xs, h := hs, nx := nx.entries, nh := nh.entries, reference := reference.entries
      positions := positions.entries, output := output.entries, revealed := 0 }
  let commutativity ← evidence.commutativityCheck tolerance
  requireSingleEnds nx nh positions
  let timeIndexing ← evidence.timeCheck tolerance
  let revealed ← e.revealed.toInt?.mapError fun c => .plain (.notWhole c)
  let _ ← Fault.require .noSuchEntry output.rowCount?
  let count := min revealed.toNat total
  pure
    { length := .ofLength total (countX + countH - 1)
      commutativity
      impulseResponse := evidence.impulseCheck tolerance
      timeIndexing
      selfConsistency := .ofRevealed tolerance count total (rowError count output reference) }

end EvidenceInput

end SteppedConvolution
