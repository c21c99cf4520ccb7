import Dataflow.Proofs.Placements

/-! # Which nodes are fused, and where

    A node is fused exactly if nothing keeps it from its producer. Then it has
    one input, and following sole inputs up past fused nodes one comes to the
    node of the host, which has the same parallelism as all on the way.

    Main statement:
    - `chained_iff_fused`: a node that is reached is a fused task exactly if it
      is fused with its producer, and its host is the nearest vertex above it
-/

namespace Dataflow

namespace Plan

open Lowering

/-! ## Section 1: The way up -/

/-- A node has one input, and it comes from another node. -/
def SoleProducer (p : Plan) (n m : Node) : Prop :=
  ∃ c ch, n.inputs = [c] ∧ p.channel? c = some ch ∧ p.node? ch.source = some m

/-- Going up sole inputs from a node one comes to the node of a vertex, and all nodes on the way are
fused into this vertex. -/
inductive Ascends (p : Plan) (r : Report) (host : VertexId) : Node → Node → Prop where
  /-- The producer has the vertex. -/
  | own {n g : Node} (hsole : p.SoleProducer n g)
      (hplace : r.placement? g.id = some (.vertex host)) : Ascends p r host n g
  /-- The producer is fused into the vertex. -/
  | fused {n m g : Node} {j : Nat} (hsole : p.SoleProducer n m)
      (hplace : r.placement? m.id = some (.chained ⟨host, j⟩)) (h : Ascends p r host m g) :
      Ascends p r host n g

variable {p : Plan} {policy : SpillPolicy} {job : JobId} {r : Report}

/-! ## Section 2: Producers of fused nodes -/

/-- A node that is fused with its producer is one of the fused nodes if it is reached. -/
theorem Fused.mem_fusedNodes {n : Node} {ch : Channel} {producer : Node} (h : p.Fused n ch producer)
    (hn : p.node? n.id = some n) (hreach : p.Reachable n.id) : n ∈ p.fusedNodes := by
  obtain ⟨driver, comparator, text, hkind, -⟩ := h.driver
  have hu : n.isUnion = false := by simp [Node.isUnion, Kind.isUnion, hkind]
  exact p.mem_fusedNodes.mpr ⟨p.mem_entered.mpr ⟨hn, hu, hreach⟩, h.fuses⟩

/-- Without a fault a fused node has one input, and its producer is reached. -/
theorem exists_sole (hfault : p.schedule.findSome? p.callbackFault? = none) {n : Node}
    (hn : n ∈ p.fusedNodes) : ∃ c ch producer, n.inputs = [c] ∧ p.channel? c = some ch ∧
      p.Fused n ch producer ∧ producer ∈ p.entered ∧ producer.id = ch.source := by
  obtain ⟨hentered, hf⟩ := p.mem_fusedNodes.mp hn
  obtain ⟨hnode, -, hreach⟩ := p.mem_entered.mp hentered
  obtain ⟨ch, producer, h⟩ := p.exists_fused hnode hf
  obtain ⟨c, rest, hinputs, hch⟩ := h.input
  -- It could have been fused with more inputs, but then leaving it would have failed.
  have hleave := (callbacks_ok_iff.mp hfault n hentered).2
  have hlength : n.inputs.length = 1 := by
    simp only [leaveFault?, hf, if_true] at hleave
    split at hleave
    · assumption
    · simp at hleave
  obtain rfl : rest = [] := by simpa [hinputs] using hlength
  have hc : c ∈ n.inputs := by simp [hinputs]
  have hid := p.id_eq h.source
  refine ⟨c, ch, producer, hinputs, hch, h, p.mem_entered.mpr ⟨?_, h.not_union, ?_⟩, hid⟩
  · rw [hid]
    exact h.source
  · rw [hid]
    exact hreach.input hnode hc hch

/-! ## Section 3: Hosts -/

/-- Above a fused node is the node of its host, with the same parallelism. -/
theorem exists_ascends (hfault : p.schedule.findSome? p.callbackFault? = none) (hr : p.Places r)
    {id : NodeId} {n : Node} (hid : n.id = id) (hn : n ∈ p.fusedNodes) :
    ∃ g ∈ p.ownNodes, p.vertexOf g.id = (p.placeOf n).host ∧
      p.Ascends r (p.placeOf n).host n g ∧ g.parallelism = n.parallelism ∧
      g.subtasksPerInstance = n.subtasksPerInstance := by
  -- The induction goes up; a producer that is fused has the same host.
  induction id using p.producers_induction generalizing n with
  | step id ih =>
    subst hid
    obtain ⟨c, ch, producer, hinputs, hch, h, hentered, hsource⟩ := exists_sole hfault hn
    have hnode := p.node?_of_fused hn
    have hsole : p.SoleProducer n producer := ⟨c, ch, hinputs, hch, h.source⟩
    have hhost : (p.placeOf n).host = p.vertexOf (p.host producer.id) := by
      rw [hsource, ← h.host_eq hnode]
      rfl
    have hplace := hr.entered hentered
    cases hf : p.fuses producer with
    | false =>
      have hown := p.mem_ownNodes.mpr ⟨hentered, hf⟩
      rw [p.host_of_not_fuses (p.mem_entered.mp hentered).1 hf] at hhost
      rw [if_neg (by simp [hf])] at hplace
      exact ⟨producer, hown, hhost.symm, .own hsole (hhost ▸ hplace), h.parallelism.symm,
        h.subtasks.symm⟩
    | true =>
      have hfused := p.mem_fusedNodes.mpr ⟨hentered, hf⟩
      obtain ⟨g, hg, hgv, hascends, hparallelism, hsubtasks⟩ :=
        ih n c ch hnode (by simp [hinputs]) hch hsource hfused
      have heq : (p.placeOf producer).host = (p.placeOf n).host := hhost.symm
      rw [if_pos hf] at hplace
      refine ⟨g, hg, hgv.trans heq, .fused hsole (j := (p.placeOf producer).position) ?_
        (heq ▸ hascends), hparallelism.trans h.parallelism.symm, hsubtasks.trans h.subtasks.symm⟩
      rw [hplace, ← heq]

theorem parallelism_sharedVertex (lead n : Node) :
    (p.sharedVertex policy lead n).parallelism = n.parallelism := by
  simp only [sharedVertex]
  split <;> rfl

/-! ## Section 4: Fused tasks -/

/-- In a result a node that is reached is a fused task exactly if nothing keeps it from being fused
with the producer of its first input. Then it has no other input, its host is the nearest vertex
above it, and fusing it has not changed its parallelism. -/
theorem chained_iff_fused {c : Compiler} {r : Compiler.Result} (h : c.compile job p = .ok r)
    {n : Node} (hn : n ∈ p.nodes) (hreach : p.Reachable n.id) :
    ((∃ place, r.report.placement? n.id = some (.chained place)) ↔
      ∃ ch producer, p.Fused n ch producer) ∧
    ∀ place, r.report.placement? n.id = some (.chained place) → n.inputs.length = 1 ∧
      ∃ g v, p.Ascends r.report place.host n g ∧ r.graph.vertex? place.host = some v ∧
        v.parallelism = n.parallelism ∧ g.subtasksPerInstance = n.subtasksPerInstance := by
  obtain ⟨lead, hfault, -, rfl⟩ := answer_of_ok h
  have hr : p.Places (p.answer c.policy job lead).report := places_answer lead
  have hnode := p.node?_of_mem hn
  refine ⟨⟨?_, ?_⟩, ?_⟩
  · rintro ⟨place, hplace⟩
    obtain ⟨hfused, -⟩ := (hr.chained_iff hnode place).mp hplace
    exact p.exists_fused hnode (p.mem_fusedNodes.mp hfused).2
  · rintro ⟨ch, producer, hfused⟩
    exact ⟨p.placeOf n, (hr.of_fused (hfused.mem_fusedNodes hnode hreach)).2⟩
  · intro place hplace
    obtain ⟨hfused, rfl⟩ := (hr.chained_iff hnode place).mp hplace
    obtain ⟨d, ch, producer, hinputs, -⟩ := exists_sole hfault hfused
    obtain ⟨g, hg, hgv, hascends, hparallelism, hsubtasks⟩ := exists_ascends hfault hr rfl hfused
    refine ⟨by simp [hinputs], g, p.sharedVertex c.policy lead g, hascends, ?_, ?_, hsubtasks⟩
    · rw [← hgv]
      exact vertex?_answer lead hg
    · rw [parallelism_sharedVertex, hparallelism]

/-- In the plan that joins two sources the formatting is fused into the counting. -/
theorem wordCount_format_chained : ∃ r place g v, Compiler.standard.compile .zero wordCount = .ok r ∧
    r.report.placement? ⟨4⟩ = some (.chained place) ∧
    wordCount.Ascends r.report place.host wordCount.nodes[4] g ∧
    r.graph.vertex? place.host = some v ∧ v.parallelism = 1 := by
  obtain ⟨r, hr⟩ := wordCount_compiles .standard .zero
  have hreach : wordCount.Reachable ⟨4⟩ :=
    Reachable.of_input (n := wordCount.nodes[5]) (c := ⟨4⟩) (.sink (List.mem_singleton_self _)) rfl
      (List.mem_singleton_self _) rfl rfl
  have hfused : wordCount.Fused wordCount.nodes[4] wordCount.channels[3] wordCount.nodes[3] :=
    ⟨⟨_, _, _, rfl, rfl⟩, ⟨⟨3⟩, [], rfl, rfl⟩, rfl, rfl, rfl, rfl, rfl, rfl, rfl⟩
  obtain ⟨hiff, hhost⟩ := chained_iff_fused hr (n := wordCount.nodes[4]) (Array.getElem_mem _) hreach
  obtain ⟨place, hplace⟩ := hiff.mpr ⟨_, _, hfused⟩
  obtain ⟨-, g, v, hascends, hv, hparallelism, -⟩ := hhost place hplace
  exact ⟨r, place, g, v, hr, hplace, hascends, hv, hparallelism⟩

end Plan

end Dataflow
