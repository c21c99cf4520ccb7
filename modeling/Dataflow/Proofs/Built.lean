import Dataflow.Proofs.Answer

/-! # Built plans

    A builder answers only plans whose nodes have the number of inputs of their
    kind and a driver for it, and it takes all sinks. In such a plan every input
    has a branch and entering a node never fails.
-/

namespace Dataflow

namespace Plan

open Lowering

/-! ## Section 1: Built plans -/

/-- The channels of every node fit its kind, and a plan with nodes has a sink. -/
structure Built (p : Plan) : Prop where
  /-- A node of a kind with a number of inputs has this number. -/
  inputCount : ∀ n ∈ p.nodes, ∀ k, n.kind.inputCount? = some k → n.inputs.length = k
  /-- A union has an input. -/
  union : ∀ n ∈ p.nodes, n.isUnion = true → n.inputs ≠ []
  /-- An operator has a driver for its number of inputs. -/
  driver : ∀ n ∈ p.nodes, ∀ d, n.kind.driver? = some d → some d.inputCount = n.kind.inputCount?
  /-- The walk starts from the nodes that are sinks. -/
  sinks : p.sinks = (p.nodes.toList.filter fun n => n.kind.isSink).map Node.id
  /-- A plan with nodes has a sink. -/
  nonempty : 0 < p.nodes.size → p.sinks ≠ []

variable {p : Plan}

theorem inputCount_of_nodeMisfit? {n : Node} (h : Builder.nodeMisfit? n = none) :
    (∀ k, n.kind.inputCount? = some k → n.inputs.length = k) ∧
      (n.isUnion = true → n.inputs ≠ []) := by
  simp only [Builder.nodeMisfit?, Option.or_eq_none_iff] at h
  obtain ⟨hinputs, -⟩ := h
  constructor
  · intro k hk
    simp only [hk] at hinputs
    split at hinputs
    · assumption
    · simp at hinputs
  · intro hu
    have hkind : n.kind.inputCount? = none := by
      revert hu
      unfold Node.isUnion Kind.isUnion Kind.inputCount?
      cases n.kind <;> simp
    simp only [hkind] at hinputs
    split at hinputs
    · simp at hinputs
    · assumption

theorem driver_of_nodeMisfit? {n : Node} (h : Builder.nodeMisfit? n = none) {d : DriverStrategy}
    (hd : n.kind.driver? = some d) : some d.inputCount = n.kind.inputCount? := by
  simp only [Builder.nodeMisfit?, Option.or_eq_none_iff] at h
  obtain ⟨-, hdriver, -⟩ := h
  simp only [hd, Option.bind_some] at hdriver
  split at hdriver
  · assumption
  · simp at hdriver

/-- A builder that answers a plan has found no misfit, and the plan has its parts. -/
theorem build_ok {b : Builder} (h : b.build = .ok p) :
    (∀ n ∈ b.parts.nodes, Builder.nodeMisfit? n = none) ∧
      (0 < b.parts.nodes.size → b.sinks ≠ []) ∧ p.toParts = { b.parts with sinks := b.sinks } := by
  unfold Builder.build at h
  split at h
  · simp at h
  · rename_i hmisfit
    split at h
    · simp at h
    · rename_i hsinks
      refine ⟨fun n hn => ?_, fun hpos hnil => hsinks ⟨hnil, hpos⟩, toParts_of_ofParts h⟩
      exact List.findSome?_eq_none_iff.mp hmisfit n (Array.mem_toList_iff.mpr hn)

/-- In a built plan a sink of the walk is one by its kind. -/
theorem Built.sink_kind (h : p.Built) {n : Node} (hn : p.node? n.id = some n) (hsink : n.id ∈ p.sinks) :
    n.kind = .sink := by
  rw [h.sinks] at hsink
  obtain ⟨m, hm, hid⟩ := List.mem_map.mp hsink
  obtain ⟨hmem, hkind⟩ := List.mem_filter.mp hm
  have hmnode := p.node?_of_mem (Array.mem_toList_iff.mp hmem)
  rw [p.node?_inj hmnode hn hid] at hkind
  revert hkind
  cases n.kind <;> simp [Kind.isSink]

/-- What a builder builds is built. -/
theorem built_of_build {b : Builder} (h : b.build = .ok p) : p.Built := by
  obtain ⟨hfit, hsinks, hparts⟩ := build_ok h
  have hnodes : p.nodes = b.parts.nodes := by rw [hparts]
  have hp : p.sinks = b.sinks := by rw [hparts]
  rw [← hnodes] at hfit hsinks
  exact {
    inputCount := fun n hn => (inputCount_of_nodeMisfit? (hfit n hn)).1
    union := fun n hn => (inputCount_of_nodeMisfit? (hfit n hn)).2
    driver := fun n hn d hd => driver_of_nodeMisfit? (hfit n hn) hd
    sinks := by rw [hp, Builder.sinks, hnodes]
    nonempty := fun hpos => hp ▸ hsinks hpos }

section
variable (h : p.Built)
include h

/-- In a built plan every input has a branch. -/
theorem flat_ne_nil {c : ChannelId} {ch : Channel} (hch : p.channel? c = some ch) :
    p.flat ch ≠ [] := by
  -- A union has a first input, and the branches of this input are among its own.
  induction c, ch, hch using p.channel_induction with
  | own c ch n hch hn hu =>
    rw [p.flat_of_not_union hn hu]
    exact List.cons_ne_nil _ _
  | union c ch n hch hn hu ih =>
    obtain ⟨d, rest, hinputs⟩ :=
      List.exists_cons_of_ne_nil (h.union n (Array.mem_of_getElem? hn) hu)
    have hd : d ∈ n.inputs := by simp [hinputs]
    obtain ⟨dh, hdh, -⟩ := p.exists_channel hn hd
    rw [p.flat_of_union hn hu, hinputs, List.flatMap_cons]
    intro hnil
    apply ih d hd dh hdh
    simpa [branchesOf, hdh] using (List.append_eq_nil_iff.mp hnil).1

/-- In a built plan entering a node has no fault. -/
theorem enterFault?_eq_none {n : Node} (hn : p.node? n.id = some n) : p.enterFault? n = none := by
  have hmem : n ∈ p.nodes := Array.mem_of_getElem? hn
  -- Only the driver that is not set has no text, and it is one for no input.
  have hdriver : ∀ d, n.kind.driver? = some d → n.kind.inputCount? ≠ some 0 →
      driverFault? n d = none := by
    intro d hd hcount
    have hinputs := h.driver n hmem d hd
    unfold driverFault?
    rw [if_neg]
    intro hnone
    refine hcount ?_
    rw [← hinputs]
    cases d <;> simp_all [DriverStrategy.taskDriver?, DriverStrategy.inputCount]
  unfold enterFault?
  cases hkind : n.kind with
  | source serializer => rfl
  | sink => rfl
  | union => rfl
  | dualInput driver first second pairComparator =>
    exact hdriver driver (by simp [hkind, Kind.driver?]) (by simp [hkind, Kind.inputCount?])
  | singleInput driver comparator =>
    have hlength := h.inputCount n hmem 1 (by simp [hkind, Kind.inputCount?])
    obtain ⟨c, hinputs⟩ := List.length_eq_one_iff.mp hlength
    obtain ⟨ch, hch, -⟩ := p.exists_channel hn (show c ∈ n.inputs by simp [hinputs])
    obtain ⟨producer, hsource⟩ := p.exists_source hch
    simp only [p.blocker?_cons hinputs hch hsource]
    split
    · simp at *
    · rfl
    · exact hdriver driver (by simp [hkind, Kind.driver?]) (by simp [hkind, Kind.inputCount?])

/-- A built plan with nodes has a node with a vertex. -/
theorem ownNodes_ne_nil (hpos : 0 < p.nodes.size) : p.ownNodes ≠ [] := by
  obtain ⟨id, rest, hsinks⟩ := List.exists_cons_of_ne_nil (h.nonempty hpos)
  have hid : id ∈ p.sinks := by simp [hsinks]
  rw [h.sinks] at hid
  obtain ⟨n, hn, rfl⟩ := List.mem_map.mp hid
  obtain ⟨hmem, hsink⟩ := List.mem_filter.mp hn
  -- A sink is reached and never fused.
  have hkind : n.kind = .sink := by
    revert hsink
    cases n.kind <;> simp [Kind.isSink]
  have hnode := p.node?_of_mem (Array.mem_toList_iff.mp hmem)
  exact List.ne_nil_of_mem (p.sink_mem_ownNodes hnode hkind (by simp [hsinks]))

end

end Plan

end Dataflow
