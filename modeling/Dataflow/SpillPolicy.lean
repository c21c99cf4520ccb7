import Dataflow.Configuration
import Dataflow.Binary.Text

/-! # Spill policies

    The limits that every memory budget of a compilation carries: how many
    spilled runs are merged at once, and how full the memory may be before a
    sorter spills. A policy is read from a configuration or from two texts of
    the environment, and is usable if it is valid.
-/

namespace Dataflow

/-! ## Section 1: Policies -/

/-- Limits that are the same for every budget of one compilation. -/
structure SpillPolicy where
  /-- The greatest number of runs that are merged at once. -/
  maxFanIn : UInt32 := 128
  /-- The part of the memory that may be full before a sorter spills. -/
  threshold : Binary32 := .ofQuotient false 4 5
deriving DecidableEq

namespace SpillPolicy

/-- What makes a policy unusable. -/
inductive Fault where
  /-- Merging fewer than two runs makes no progress. -/
  | maxFanIn (got : UInt32)
  /-- The part is not in `(0, 1]`. -/
  | threshold (got : Binary32)
deriving DecidableEq

/-- The text of a fault. -/
def Fault.message : Fault → String
  | maxFanIn got => s!"spilling max fan must be at least 2, got {got.toNat}"
  | threshold got => s!"sort spilling threshold must be in (0, 1], got {got.display}"

/-- The first fault of a policy. -/
def fault? (p : SpillPolicy) : Option Fault :=
  if p.maxFanIn < 2 then some (.maxFanIn p.maxFanIn)
  else if (Binary.ofInt 0).lt p.threshold && p.threshold.le (.ofInt 1) then none
  else some (.threshold p.threshold)

/-- At least two runs are merged, and the threshold lies in `(0, 1]`. -/
structure Valid (p : SpillPolicy) : Prop where
  /-- Merging makes progress. -/
  two_le_maxFanIn : 2 ≤ p.maxFanIn
  /-- Something may be kept in memory. -/
  threshold_pos : (Binary.ofInt 0).lt p.threshold = true
  /-- No more than the memory may be full. -/
  threshold_le_one : p.threshold.le (.ofInt 1) = true

/-- A policy has no fault exactly if it is valid. -/
theorem fault?_eq_none_iff (p : SpillPolicy) : p.fault? = none ↔ p.Valid := by
  unfold fault?
  constructor
  · intro h
    split at h
    · simp at h
    · split at h
      · rename_i hfan hthr
        simp only [Bool.and_eq_true] at hthr
        exact ⟨UInt32.not_lt.mp hfan, hthr.1, hthr.2⟩
      · simp at h
  · rintro ⟨hfan, hpos, hle⟩
    rw [if_neg (UInt32.not_lt.mpr hfan)]
    simp [hpos, hle]

/-! ## Section 2: Sources -/

/-- The key of the fan-in. -/
def maxFanInKey : String := "jobgen.spilling.max-fan"

/-- The key of the threshold. -/
def thresholdKey : String := "jobgen.spilling.sort-threshold"

/-- The policy of a configuration. A fan-in that is no 32-bit word counts as missing, and the
threshold is rounded from double precision. -/
def ofConfiguration (c : Configuration) : SpillPolicy :=
  let standard : SpillPolicy := {}
  let fan := (c.getInteger maxFanInKey (Int64.ofNat standard.maxFanIn.toNat)).toInt
  { maxFanIn := if 0 ≤ fan ∧ fan.toNat < UInt32.size then UInt32.ofNat fan.toNat else standard.maxFanIn
    threshold := (c.getFloat thresholdKey standard.threshold.convert).convert }

/-- The policy of two optional texts; one that does not read counts as missing. -/
def ofTexts (maxFanIn threshold : Option String) : SpillPolicy :=
  let standard : SpillPolicy := {}
  { maxFanIn := (maxFanIn.bind fun s => readUInt32? s.toList).getD standard.maxFanIn
    threshold := (threshold.bind fun s => Binary.read? s.toList).getD standard.threshold }

end SpillPolicy

end Dataflow
