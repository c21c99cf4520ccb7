import Dataflow.Proofs.Threads
import Dataflow.Proofs.WellFormed

/-! # Outputs and wires

    What a node sends out is decided by the nodes that read it: each of them,
    when it is left, adds to its producers one output slot for every branch that
    is wired into its vertex, and a fused one adds the entry to its producer's
    thread. In a built plan a node has the one or the other, so that the output
    slots of a node are those of its wires, in the order of the wiring.

    Main statement:
    - `outputs_deliver`: the outputs of every node and the wires of every vertex,
      in a result for a built plan
-/

namespace Dataflow

namespace Plan

open Lowering

/-- How a source says that its records are serialized. -/
def Kind.serializer? : Kind → Option Serializer
  | source serializer => some serializer
  | sink | singleInput .. | dualInput .. | union => none

/-! ## Section 1: The wiring of a plan -/

/-- The branches that are wired, with the vertices that they enter: node by node in the order in which
a walk leaves them, and for each node input by input. -/
def wiring (p : Plan) (r : Report) : List (VertexId × Channel) :=
  p.visits.left.flatMap (p.wiresInto r)

/-- The part of the wiring that starts at a node. -/
def wiresFrom (p : Plan) (r : Report) (id : NodeId) : List (VertexId × Channel) :=
  (p.wiring r).filter fun wire => wire.2.source = id

/-- The wire for a branch that enters a vertex. -/
def wireOf? (wire : VertexId × Channel) : Option Wire :=
  wire.2.ship.wire.toOption.map fun (transport, pattern) =>
    { target := wire.1, transport, pattern }

/-- The only outgoing channel of a node leads to a fused one. -/
def HandsOver (p : Plan) (r : Report) (m : Node) : Prop :=
  ∃ c ch n place, m.outgoing = [c] ∧ p.channel? c = some ch ∧ p.node? ch.target = some n ∧
    r.placement? n.id = some (.chained place)

/-- The outputs of the nodes of a result, and the wires of its vertices, are those of the wiring. -/
structure Delivers (p : Plan) (r : Compiler.Result) : Prop where
  /-- A node that hands over to a fused one has no wires. If it has a vertex, it has one output, which
  enters the fused node; if it is fused itself, it has none. -/
  handed : ∀ m ∈ p.nodes, m.isUnion = false → p.Reachable m.id → p.HandsOver r.report m →
    p.wiresFrom r.report m.id = [] ∧ ∃ t, r.config? m.id = some t ∧
      t.outputs = if (r.report.own? m.id).isSome then [{ ship := .forward, comparator := none }] else []
  /-- The outputs of any other node are those of the wires from it, one for each and in their order. -/
  outputs : ∀ m ∈ p.nodes, m.isUnion = false → p.Reachable m.id → ¬ p.HandsOver r.report m →
    ∃ t, r.config? m.id = some t ∧
      t.outputs = (p.wiresFrom r.report m.id).map fun wire =>
        { ship := wire.2.ship, comparator := wire.2.shipComparator }
  /-- The first wire says how the output is serialized. Without one only a source says it. -/
  serializer : ∀ m ∈ p.nodes, m.isUnion = false → p.Reachable m.id →
    ∃ t, r.config? m.id = some t ∧ t.outputSerializer =
      match (p.wiresFrom r.report m.id).head? with
      | some wire => some wire.2.serializer
      | none => m.kind.serializer?
  /-- The wires of a vertex are those that start at its node or at one that is fused into it, in the
  order of the wiring. -/
  wires : ∀ id v, r.graph.vertex? id = some v → v.wires.map some =
    ((p.wiring r.report).filter fun wire =>
      (r.report.placement? wire.2.source).bind Placement.vertex? = some id).map wireOf?

variable {p : Plan} {policy : SpillPolicy} {job : JobId} {r : Report}

/-- The wiring is that of the journal. -/
theorem Places.wiring_eq (hr : p.Places r) :
    p.wiring r = (p.journal p.schedule).filterMap p.wiredOf? := by
  rw [wiring, visits_eq, hr.journal_wired]

theorem Places.wiresFrom_eq (hr : p.Places r) (m : Node) :
    p.wiresFrom r m.id = (p.journal p.schedule).filterMap (p.fedOf? m) := by
  rw [wiresFrom, hr.wiring_eq, List.filter_filterMap]
  apply List.filterMap_congr
  intro e _
  cases e with
  | made n => rfl
  | described n i ch => rfl
  | hosted n ch => rfl
  | wired n i b =>
    by_cases hsource : b.source = m.id <;> simp [wiredOf?, fedOf?, hsource]

/-! ## Section 2: How the output is serialized -/

theorem baseConfig_outputSerializer (n : Node) :
    (p.baseConfig policy n).outputSerializer = n.kind.serializer? := by
  unfold baseConfig
  cases n.kind <;> rfl

/-- An entry that wires a branch from a node says how the output is serialized if it adds the first
output slot. -/
theorem configStep_outputSerializer (n : Node) (t : TaskConfig) (e : Entry) :
    (p.configStep policy n t e).outputSerializer =
      match p.fedOf? n e with
      | some wire => if t.outputs = [] then some wire.2.serializer else t.outputSerializer
      | none => t.outputSerializer := by
  cases e with
  | made m => rfl
  | wired m i b =>
    simp only [configStep, fedOf?]
    by_cases hm : m.id = n.id <;> by_cases hb : b.source = n.id <;>
      simp [hm, hb, TaskConfig.addWire, TaskConfig.updateInput, TaskConfig.addOutputFor]
  | described m i ch =>
    simp only [configStep, fedOf?]
    split <;> rfl
  | hosted m ch =>
    simp only [configStep, fedOf?]
    split
    · rfl
    · split <;> rfl

/-- If nothing is wired from a node, or nothing else gives it an output, then its output is serialized
as the first branch that is wired from it. -/
theorem configAfter_outputSerializer {n : Node} {j : List Entry}
    (h : (∀ e ∈ j, p.fedOf? n e = none) ∨
      ∀ e ∈ j, p.outputOf? n e = (p.fedOf? n e).map fun wire => outputFor wire.2) :
    (p.configAfter policy j n).outputSerializer =
      match (j.filterMap (p.fedOf? n)).head? with
      | some wire => some wire.2.serializer
      | none => n.kind.serializer? := by
  induction j using List.reverseRecOn with
  | nil => exact baseConfig_outputSerializer n
  | append_singleton j e ih =>
    have hsub : ∀ e' ∈ j, e' ∈ j ++ [e] := fun e' he' => List.mem_append_left _ he'
    have ih := ih (h.imp (fun h e' he' => h e' (hsub e' he')) fun h e' he' => h e' (hsub e' he'))
    rw [configAfter_concat, configStep_outputSerializer, List.filterMap_append, ih]
    cases hfed : p.fedOf? n e with
    | none => simp [hfed]
    | some wire =>
      -- The slots so far are those of the wires so far, and so the one list is empty if the other is.
      have houtputs : (p.configAfter policy j n).outputs =
          (j.filterMap (p.fedOf? n)).map fun wire => outputFor wire.2 := by
        rw [configAfter_outputs, List.map_filterMap]
        apply List.filterMap_congr
        intro e' he'
        rcases h with h | h
        · exact absurd hfed (by simp [h e (by simp)])
        · exact h e' (hsub e' he')
      rw [houtputs]
      cases j.filterMap (p.fedOf? n) <;> simp [hfed]

/-! ## Section 3: Nodes that hand over -/

section
variable (htied : p.Tied) (hfault : p.schedule.findSome? p.callbackFault? = none) (hr : p.Places r)
include htied hfault hr

/-- In a built plan a node hands over exactly if a fused node is linked to it. -/
theorem handsOver_iff {m : Node} (hm : p.node? m.id = some m) :
    p.HandsOver r m ↔ ∃ n ∈ p.fusedNodes, p.Link m n := by
  constructor
  · rintro ⟨c, ch, n, place, hout, hch, hn, hplace⟩
    have hid : n.id = ch.target := p.id_eq hn
    obtain ⟨hfused, -⟩ := (hr.chained_iff (hid ▸ hn) place).mp hplace
    obtain ⟨m', hm', hlink⟩ := exists_link htied hfault hfused
    obtain ⟨d, dh, -, hinputs, hdh, hdsource, -⟩ := id hlink
    -- The channel ends at the fused node, so it is its only input, which starts at the linked node.
    have hc : c ∈ n.inputs := htied.mem_inputs hch hn
    obtain rfl : c = d := by simpa [hinputs] using hc
    obtain ⟨eh, heh, hsource⟩ :=
      p.consistent.outgoing_source m (Array.mem_of_getElem? hm) c (by simp [hout])
    have hsame : m'.id = m.id := by
      rw [hdh] at heh
      rw [← hdsource, Option.some.inj heh, hsource]
    rw [p.node?_inj (p.mem_entered.mp hm').1 hm hsame] at hlink
    exact ⟨n, hfused, hlink⟩
  · rintro ⟨n, hfused, c, ch, hout, -, hch, -, htarget, -⟩
    exact ⟨c, ch, n, p.placeOf n, hout, hch, htarget ▸ p.node?_of_fused hfused,
      (hr.of_fused hfused).2⟩

/-- A node that does not hand over has outputs for its wires only. -/
theorem outputOf?_eq {m : Node} (hm : p.node? m.id = some m) (h : ¬ p.HandsOver r m) {e : Entry}
    (he : e ∈ p.journal p.schedule) :
    p.outputOf? m e = (p.fedOf? m e).map fun wire => outputFor wire.2 := by
  obtain ⟨cb, hcb, hentry⟩ := List.mem_flatMap.mp he
  have hnode := p.mem_schedule.mp hcb
  cases p.of_mem_entries hnode.1 hentry with
  | made n => rfl
  | described hf hi hch => rfl
  | @wired n i c ch b hf hi hch hb =>
    by_cases hsource : b.source = m.id <;> simp [outputOf?, fedOf?, hsource]
  | @hosted n ch producer hfused =>
    refine if_neg fun hhosted => h ?_
    have hn : n ∈ p.fusedNodes := hfused.mem_fusedNodes hnode.1 hnode.2.2
    obtain ⟨m', hm', hlink⟩ := exists_link htied hfault hn
    have hsame : m'.id = m.id := (hlink.source_eq hfused).symm.trans hhosted.2.1
    rw [p.node?_inj (p.mem_entered.mp hm').1 hm hsame] at hlink
    exact (handsOver_iff htied hfault hr hm).mpr ⟨n, hn, hlink⟩

/-- Nothing is wired from a node that hands over. -/
theorem fedOf?_of_handsOver {m : Node} (hm : p.node? m.id = some m) (h : p.HandsOver r m)
    {e : Entry} (he : e ∈ p.journal p.schedule) : p.fedOf? m e = none := by
  obtain ⟨n, hn, hlink⟩ := (handsOver_iff htied hfault hr hm).mp h
  cases e with
  | made n' => rfl
  | described n' i ch => rfl
  | hosted n' ch => rfl
  | wired n' i b =>
    obtain ⟨hn', c, hc, hb⟩ := wired_mem_journal he
    exact if_neg (hlink.source_ne hn hn' hc hb)

/-! ## Section 4: Configurations of nodes -/

/-- The output of a node that hands over is the entry to the fused node, if the node has a vertex. -/
theorem outputs_of_handsOver {m : Node} (hm : m ∈ p.entered) (h : p.HandsOver r m) :
    ((p.fullLayout policy).config m).outputs =
      if (r.own? m.id).isSome then [{ ship := .forward, comparator := none }] else [] := by
  obtain ⟨n, hn, hlink⟩ := (handsOver_iff htied hfault hr (p.mem_entered.mp hm).1).mp h
  rw [hr.own? hm]
  cases hf : p.fuses m with
  | false => exact hlink.outputs_own (p.mem_ownNodes.mpr ⟨hm, hf⟩) hn
  | true => exact hlink.outputs_fused (p.mem_fusedNodes.mpr ⟨hm, hf⟩) hn

theorem outputs_of_not_handsOver {m : Node} (hm : m ∈ p.entered) (h : ¬ p.HandsOver r m) :
    ((p.fullLayout policy).config m).outputs =
      (p.wiresFrom r m.id).map fun wire => outputFor wire.2 := by
  have hnode := (p.mem_entered.mp hm).1
  rw [outputs_fullLayout, hr.wiresFrom_eq, List.map_filterMap]
  exact List.filterMap_congr fun e he => outputOf?_eq htied hfault hr hnode h he

theorem outputSerializer_fullLayout (policy : SpillPolicy) {m : Node} (hm : m ∈ p.entered) :
    ((p.fullLayout policy).config m).outputSerializer =
      match (p.wiresFrom r m.id).head? with
      | some wire => some wire.2.serializer
      | none => m.kind.serializer? := by
  have hnode := (p.mem_entered.mp hm).1
  rw [hr.wiresFrom_eq]
  apply configAfter_outputSerializer
  by_cases h : p.HandsOver r m
  · exact .inl fun e he => fedOf?_of_handsOver htied hfault hr hnode h he
  · exact .inr fun e he => outputOf?_eq htied hfault hr hnode h he

end

/-! ## Section 5: Wires of a vertex -/

/-- Without a fault the wires of a vertex are those of the wiring that start in it. -/
theorem wires_answer (hfault : p.schedule.findSome? p.callbackFault? = none) (hr : p.Places r)
    (lead : Node) {g : Node} (hg : g ∈ p.ownNodes) :
    (p.sharedVertex policy lead g).wires.map some = ((p.wiring r).filter fun wire =>
      (r.placement? wire.2.source).bind Placement.vertex? = some (p.vertexOf g.id)).map wireOf? := by
  rw [wires_sharedVertex, wiresAfter, hr.wiring_eq, List.filter_filterMap, List.map_filterMap,
    List.map_filterMap]
  apply List.filterMap_congr
  intro e he
  cases e with
  | made n => rfl
  | described n i ch => rfl
  | hosted n ch => rfl
  | wired n i b =>
    obtain ⟨hn, c, hc, hb⟩ := wired_mem_journal he
    obtain ⟨w, hw⟩ := exists_wire hfault hn hc hb
    obtain ⟨s, hs, hsid⟩ := branch_entered (p.mem_ownNodes.mp hn).1 hc hb
    obtain ⟨k, hk, hkid⟩ := exists_host_own hs
    have hvertex : (r.placement? b.source).bind Placement.vertex? = some (p.vertexOf k.id) := by
      rw [← hsid, hr.vertex? hs, hkid]
    -- The branch starts in the vertex exactly if the node of the vertex is the host of its source.
    have hhost : p.host b.source = g.id ↔ p.vertexOf k.id = p.vertexOf g.id := by
      rw [← hsid, ← hkid]
      exact ⟨fun h => by rw [h], fun h => congrArg Node.id (vertexOf_inj hk hg h)⟩
    by_cases h : p.vertexOf k.id = p.vertexOf g.id
    · simp [wireFrom?, wiredOf?, wireOf?, hhost, hvertex, h, hw, Except.toOption]
    · simp [wireFrom?, wiredOf?, hhost, hvertex, h]

/-! ## Section 6: Outputs of a result -/

/-- In a result for a built plan the outputs of a node are those of the branches that are wired from it,
in the order of the wiring, unless it hands over to a fused node; and the wires of a vertex are those
that start in it. -/
theorem outputs_deliver {jobName : String} {config : Configuration} {instanceType : Option String}
    {calls : List Builder.Call}
    (hbuild : ((Builder.new jobName config instanceType).after calls).build = .ok p)
    {c : Compiler} {r : Compiler.Result} (h : c.compile job p = .ok r) : p.Delivers r := by
  have htied := tied_of_build (tied_after jobName config instanceType calls) hbuild
  obtain ⟨lead, hfault, -, rfl⟩ := answer_of_ok h
  have hr : p.Places (p.answer c.policy job lead).report := places_answer lead
  have hentered : ∀ m ∈ p.nodes, m.isUnion = false → p.Reachable m.id → m ∈ p.entered :=
    fun m hm hu hreach => p.mem_entered.mpr ⟨p.node?_of_mem hm, hu, hreach⟩
  constructor
  case handed =>
    intro m hm hu hreach hover
    have hmem := hentered m hm hu hreach
    obtain ⟨t, ht, hsettings⟩ := config?_answer c.policy job lead hmem
    refine ⟨?_, t, ht, ?_⟩
    · rw [hr.wiresFrom_eq]
      exact List.filterMap_eq_nil_iff.mpr fun e he =>
        fedOf?_of_handsOver htied hfault hr (p.node?_of_mem hm) hover he
    · rw [hsettings]
      exact outputs_of_handsOver htied hfault hr hmem hover
  case outputs =>
    intro m hm hu hreach hover
    have hmem := hentered m hm hu hreach
    obtain ⟨t, ht, hsettings⟩ := config?_answer c.policy job lead hmem
    refine ⟨t, ht, ?_⟩
    rw [hsettings]
    exact outputs_of_not_handsOver htied hfault hr hmem hover
  case serializer =>
    intro m hm hu hreach
    have hmem := hentered m hm hu hreach
    obtain ⟨t, ht, hsettings⟩ := config?_answer c.policy job lead hmem
    refine ⟨t, ht, ?_⟩
    rw [hsettings]
    exact outputSerializer_fullLayout htied hfault hr c.policy hmem
  case wires =>
    intro id v hv
    obtain ⟨g, hg, rfl, rfl⟩ := exists_of_vertex? lead hv
    exact wires_answer hfault hr lead hg

/-- In the plan that reads, splits, trims and writes lines the reading hands over to the splitting, and
what is trimmed is written. -/
theorem pipeline_delivers : ∃ r, Compiler.standard.compile .zero pipeline = .ok r ∧
    pipeline.Delivers r ∧ pipeline.HandsOver r.report pipeline.nodes[0] ∧
    ¬ pipeline.HandsOver r.report pipeline.nodes[2] := by
  obtain ⟨r, hr⟩ := pipeline_compiles .standard .zero
  refine ⟨r, hr, outputs_deliver pipeline_built hr, ?_⟩
  obtain ⟨lead, -, -, rfl⟩ := answer_of_ok hr
  have hp : pipeline.Places (pipeline.answer Compiler.standard.policy .zero lead).report :=
    places_answer lead
  have hsplit : pipeline.nodes[1] ∈ pipeline.fusedNodes := of_decide_eq_true (by cbv)
  constructor
  · exact ⟨⟨0⟩, pipeline.channels[0], pipeline.nodes[1], _, rfl, rfl, rfl, (hp.of_fused hsplit).2⟩
  · rintro ⟨c, ch, n, place, hout, hch, hn, hplace⟩
    obtain rfl : ⟨2⟩ = c := List.singleton_inj.mp hout
    obtain rfl : pipeline.channels[2] = ch := Option.some.inj hch
    obtain rfl : pipeline.nodes[3] = n := Option.some.inj hn
    -- The writing is not fused.
    obtain ⟨hfused, -⟩ := (hp.chained_iff rfl place).mp hplace
    exact absurd (pipeline.mem_fusedNodes.mp hfused).2 (by decide)

end Plan

end Dataflow
