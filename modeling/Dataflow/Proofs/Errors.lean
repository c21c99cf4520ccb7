import Dataflow.Proofs.Answer

/-! # Errors of a compilation

    Most errors that a step can fail with never show: the walk finds what it
    looks up, no node is wired before its producers, no vertex is connected with
    itself, and every chain is placed once. What remains are promises that the
    plan itself breaks.

    Main statement:
    - `error_foreseen`: a compilation fails with one of the foreseen errors only
-/

namespace Dataflow

namespace Plan

open Lowering

/-! ## Section 1: The errors that are possible -/

/-- The errors that a compilation of a plan can end with: there is no vertex, or the plan breaks one
of a few promises at a node that is reached and no union. -/
inductive Foreseen (p : Plan) : CompileError → Prop where
  /-- No vertex was made. -/
  | emptyPlan : Foreseen p .emptyPlan
  /-- An operator that records can be pushed to has no input. -/
  | noInput {n : Node} {driver : DriverStrategy} {comparator : Option Comparator}
      (hn : p.node? n.id = some n) (hreach : p.Reachable n.id)
      (hkind : n.kind = .singleInput driver comparator) (hdriver : driver.chainDriver? ≠ none)
      (hinputs : n.inputs = []) :
      Foreseen p (.step n.display n.id .materialize (.violation (.noInput n)))
  /-- An operator has no driver. -/
  | noDriver {n : Node} (hn : p.node? n.id = some n) (hreach : p.Reachable n.id)
      (hdriver : n.kind.driver? = some .unset) :
      Foreseen p (.step n.display n.id .materialize (.violation (.noDriver n)))
  /-- An operator is fused over its first input but has others. -/
  | fusedInputs {n : Node} {driver : DriverStrategy} {comparator : Option Comparator}
      (hn : p.node? n.id = some n) (hreach : p.Reachable n.id)
      (hkind : n.kind = .singleInput driver comparator) (hfuse : canFuse p n driver = .ok true)
      (hinputs : 1 < n.inputs.length) :
      Foreseen p (.step n.display n.id .wire (.violation (.fusedInputs n)))
  /-- An input has no branches. -/
  | noBranches {n : Node} {i : Nat} {c : ChannelId} (hn : p.node? n.id = some n)
      (hu : n.isUnion = false) (hreach : p.Reachable n.id) (hc : n.inputs[i]? = some c)
      (hnil : p.branchesOf c = []) :
      Foreseen p (.step n.display n.id .wire (.violation (.noBranches i n)))
  /-- Two branches of an input are serialized differently. -/
  | serializerMismatch {n : Node} {c : ChannelId} {b b' : Channel} (hn : p.node? n.id = some n)
      (hu : n.isUnion = false) (hreach : p.Reachable n.id) (hc : c ∈ n.inputs)
      (hb : b ∈ p.branchesOf c) (hb' : b' ∈ p.branchesOf c) (hne : b.serializer ≠ b'.serializer) :
      Foreseen p (.step n.display n.id .wire (.serializerMismatch b.serializer b'.serializer))
  /-- A branch of an input is to be routed by ranges of keys. -/
  | rangePartitioning {n : Node} {c : ChannelId} {b : Channel} (hn : p.node? n.id = some n)
      (hu : n.isUnion = false) (hreach : p.Reachable n.id) (hc : c ∈ n.inputs)
      (hb : b ∈ p.branchesOf c) (hship : b.ship = .partitionRange) :
      Foreseen p (.step n.display n.id .wire (.unsupported .rangePartitioning))
  /-- A branch of an input has no ship strategy. -/
  | unsetShipStrategy {n : Node} {c : ChannelId} {b : Channel} (hn : p.node? n.id = some n)
      (hu : n.isUnion = false) (hreach : p.Reachable n.id) (hc : c ∈ n.inputs)
      (hb : b ∈ p.branchesOf c) (hship : b.ship = .unset) :
      Foreseen p (.step n.display n.id .wire (.violation .unsetShipStrategy))

variable {p : Plan} {n : Node}

/-! ## Section 2: The faults of single callbacks -/

theorem taskDriver?_eq_none_iff (d : DriverStrategy) : d.taskDriver? = none ↔ d = .unset := by
  cases d <;> simp [DriverStrategy.taskDriver?]

/-- The kinds of fault of a branch. -/
theorem shipFault?_cases {b : Channel} {e : StepError} (h : shipFault? b = some e) :
    (b.ship = .partitionRange ∧ e = .unsupported .rangePartitioning) ∨
      (b.ship = .unset ∧ e = .violation .unsetShipStrategy) := by
  cases hship : b.ship <;> simp [shipFault?, hship, ShipStrategy.wire] at h
  · exact Or.inr ⟨rfl, h.symm⟩
  · exact Or.inl ⟨rfl, h.symm⟩

/-- A conflict is between the first branch and the first one that differs from it. -/
theorem serializerConflict?_cases {branches : List Channel} {e : StepError}
    (h : serializerConflict? branches = some e) : ∃ first rest b, branches = first :: rest ∧
      rest.find? (fun b => b.serializer ≠ first.serializer) = some b ∧
      e = .serializerMismatch first.serializer b.serializer := by
  cases branches with
  | nil => simp [serializerConflict?] at h
  | cons first rest =>
    obtain ⟨b, hb, he⟩ := Option.map_eq_some_iff.mp h
    exact ⟨first, rest, b, rfl, hb, he.symm⟩

/-- An operator keeps from being fused without a failure, or it has no input. -/
theorem blocker?_error {driver : DriverStrategy} {e : StepError} (hn : p.node? n.id = some n)
    (h : blocker? p n driver = .error e) :
    driver.chainDriver? ≠ none ∧ n.inputs = [] ∧ e = .violation (.noInput n) := by
  cases hinputs : n.inputs with
  | nil =>
    rw [p.blocker?_nil hinputs] at h
    split at h
    · simp at h
    · rename_i hdriver
      exact ⟨hdriver, rfl, by simpa using h.symm⟩
  | cons c rest =>
    obtain ⟨ch, hch, -⟩ := p.exists_channel hn (show c ∈ n.inputs by simp [hinputs])
    obtain ⟨producer, hsource⟩ := p.exists_source hch
    simp [p.blocker?_cons hinputs hch hsource] at h

theorem driverFault?_cases {driver : DriverStrategy} {e : StepError}
    (h : driverFault? n driver = some e) : driver = .unset ∧ e = .violation (.noDriver n) := by
  unfold driverFault? at h
  split at h
  · rename_i hdriver
    exact ⟨(taskDriver?_eq_none_iff driver).mp hdriver, by simpa using h.symm⟩
  · simp at h

/-! ## Section 3: Every error is foreseen -/

/-- An error of entering a node is foreseen. -/
theorem enterFault?_foreseen (hn : p.node? n.id = some n) (hreach : p.Reachable n.id)
    {e : StepError} (h : p.enterFault? n = some e) :
    p.Foreseen (.step n.display n.id .materialize e) := by
  unfold enterFault? at h
  cases hkind : n.kind with
  | singleInput driver comparator =>
    simp only [hkind] at h
    split at h
    · rename_i e' hb
      obtain rfl : e' = e := by simpa using h
      obtain ⟨hdriver, hinputs, rfl⟩ := blocker?_error hn hb
      exact .noInput hn hreach hkind hdriver hinputs
    · simp at h
    · obtain ⟨rfl, rfl⟩ := driverFault?_cases h
      exact .noDriver hn hreach (by simp [hkind, Kind.driver?])
  | dualInput driver first second pairComparator =>
    simp only [hkind] at h
    obtain ⟨rfl, rfl⟩ := driverFault?_cases h
    exact .noDriver hn hreach (by simp [hkind, Kind.driver?])
  | source serializer => simp [hkind] at h
  | sink => simp [hkind] at h
  | union => simp [hkind] at h

/-- An error of an input of a node is foreseen. -/
theorem slotFault?_foreseen (hn : p.node? n.id = some n) (hu : n.isUnion = false)
    (hreach : p.Reachable n.id) {slot : ChannelId × Nat} (hslot : slot ∈ n.inputs.zipIdx)
    {e : StepError} (h : p.slotFault? n slot = some e) :
    p.Foreseen (.step n.display n.id .wire e) := by
  obtain ⟨c, i⟩ := slot
  have hc : n.inputs[i]? = some c := List.mem_zipIdx_iff_getElem?.mp hslot
  have hmem : c ∈ n.inputs := List.mem_of_getElem? hc
  simp only [slotFault?] at h
  split at h
  · rename_i hnil
    obtain rfl : _ = e := by simpa using h
    exact .noBranches hn hu hreach hc hnil
  · rcases Option.or_eq_some_iff.mp h with hconflict | ⟨-, hship⟩
    · obtain ⟨first, rest, b, hbranches, hb, rfl⟩ := serializerConflict?_cases hconflict
      have hne : b.serializer ≠ first.serializer := by simpa using List.find?_some hb
      refine .serializerMismatch hn hu hreach hmem ?_ ?_ hne.symm
      · simp [hbranches]
      · simp [hbranches, List.mem_of_find?_eq_some hb]
    · obtain ⟨b, hb, hfault⟩ := List.exists_of_findSome?_eq_some hship
      rcases shipFault?_cases hfault with ⟨hrange, rfl⟩ | ⟨hunset, rfl⟩
      · exact .rangePartitioning hn hu hreach hmem hb hrange
      · exact .unsetShipStrategy hn hu hreach hmem hb hunset

/-- An error of leaving a node is foreseen. -/
theorem leaveFault?_foreseen (hn : p.node? n.id = some n) (hu : n.isUnion = false)
    (hreach : p.Reachable n.id) {e : StepError} (h : p.leaveFault? n = some e) :
    p.Foreseen (.step n.display n.id .wire e) := by
  unfold leaveFault? at h
  split at h
  · rename_i hf
    split at h
    · simp at h
    · rename_i hlength
      obtain rfl : _ = e := by simpa using h
      obtain ⟨ch, producer, hfused⟩ := p.exists_fused hn hf
      obtain ⟨c, rest, hinputs, hch⟩ := hfused.input
      obtain ⟨driver, comparator, text, hkind, htext⟩ := hfused.driver
      have hblocker : blocker? p n driver = .ok none := by
        simp only [fuses, hkind] at hf
        split at hf
        · assumption
        · simp at hf
      -- A fused node has an input, so if it has not one it has more.
      refine .fusedInputs hn hreach hkind ?_ ?_
      · simp [canFuse, hblocker, Except.map]
      · rw [hinputs, List.length_cons] at hlength ⊢
        omega
  · obtain ⟨slot, hslot, hfault⟩ := List.exists_of_findSome?_eq_some h
    exact slotFault?_foreseen hn hu hreach hslot hfault

/-- A compilation that fails ends with one of the foreseen errors. In particular no look-up fails, no
request to the graph fails, and nothing fails after the walk. -/
theorem error_foreseen {c : Compiler} {job : JobId} {e : CompileError}
    (h : c.compile job p = .error e) :
    p.Foreseen e ∧ (∀ fault, e.cause? ≠ some (.fault fault)) ∧ ∀ cause, e ≠ .finalization cause := by
  have hforeseen : p.Foreseen e := by
    rw [compile_eq] at h
    cases hfault : p.schedule.findSome? p.callbackFault? with
    | none =>
      simp only [hfault] at h
      split at h
      · obtain rfl : _ = e := by simpa using h
        exact .emptyPlan
      · simp at h
    | some e' =>
      obtain rfl : e' = e := by simpa [hfault] using h
      obtain ⟨cb, hcb, hcbfault⟩ := List.exists_of_findSome?_eq_some hfault
      obtain ⟨hn, hu, hreach⟩ := p.mem_schedule.mp hcb
      cases cb with
      | enter n =>
        obtain ⟨cause, hcause, rfl⟩ := Option.map_eq_some_iff.mp hcbfault
        exact enterFault?_foreseen hn hreach hcause
      | leave n =>
        obtain ⟨cause, hcause, rfl⟩ := Option.map_eq_some_iff.mp hcbfault
        exact leaveFault?_foreseen hn hu hreach hcause
  -- None of the foreseen errors is a failed look-up or stems from after the walk.
  refine ⟨hforeseen, fun fault hcause => ?_, fun cause heq => ?_⟩
  · cases hforeseen <;> simp [CompileError.cause?] at hcause
  · cases hforeseen <;> simp at heq

/-- The parts of the plan that joins two sources, but the channel to the sink has no ship strategy. -/
def unroutedParts : Parts :=
  { wordCountParts with
    channels := wordCountParts.channels.modify 4 fun ch => { ch with ship := .unset } }

theorem unrouted_consistent : unroutedParts.Consistent :=
  unroutedParts.inconsistency?_eq_none_iff.mp (by decide)

theorem unrouted_listing :
    unroutedParts.listing = .ok [⟨5⟩, ⟨4⟩, ⟨3⟩, ⟨2⟩, ⟨1⟩, ⟨0⟩] := by
  cbv

/-- The plan of these parts. -/
def unrouted : Plan :=
  { unroutedParts with
    consistent := unrouted_consistent
    acyclic := Parts.acyclic_of_listing unrouted_consistent unrouted_listing }

/-- The plan does not compile, and the error is a foreseen one. -/
theorem unrouted_foreseen : ∃ e, Compiler.standard.compile .zero unrouted = .error e ∧
    unrouted.Foreseen e := by
  -- The walk itself does not evaluate; that the sink cannot be left shows on its branches.
  have hfails : ¬ ∃ r, Compiler.standard.compile .zero unrouted = .ok r := by
    intro h
    have hsink : unrouted.nodes[5] ∈ unrouted.entered :=
      unrouted.mem_entered.mpr ⟨rfl, rfl, .sink (List.mem_singleton_self _)⟩
    have hleave := (((compile_ok_iff _ _ unrouted).mp h).1 _ hsink).2
    have hbranches : unrouted.branchesOf ⟨4⟩ = [unrouted.channels[4]] :=
      unrouted.branchesOf_of_not_union (n := unrouted.nodes[4]) rfl rfl rfl
    have hinputs : unrouted.nodes[5].inputs = [⟨4⟩] := rfl
    have hf : unrouted.fuses unrouted.nodes[5] = false := rfl
    have hship : unrouted.channels[4].ship = .unset := rfl
    simp [leaveFault?, hf, hinputs, slotFault?, hbranches, serializerConflict?, shipFault?, hship,
      ShipStrategy.wire] at hleave
  cases h : Compiler.standard.compile .zero unrouted with
  | ok r => exact absurd ⟨r, h⟩ hfails
  | error e => exact ⟨e, rfl, (error_foreseen h).1⟩

end Plan

end Dataflow
