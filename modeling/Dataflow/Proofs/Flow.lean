import Dataflow.Proofs.Serializers
import Dataflow.Proofs.Threads
import Dataflow.Proofs.WellFormed

/-! # Records flow from inputs to outputs

    In a built plan nothing is a dead end: operators have inputs, unions have
    branches, and what is reached is read by something, up to a sink. All this
    carries over to the graph, where fused nodes stand for the vertex that hosts
    them and unions for their branches.

    Main statements:
    - `incoming_answer`: the wires that end at a vertex are those for the
      branches of the inputs of its node
    - `drained_of_branch`: what is read by a node that is reached comes to a sink
    - `graph_conducts`: in a result for a built plan every vertex lies on a way
      from an input to an output, and has wires on all sides on which its kind
      has any
-/

namespace Dataflow

namespace Plan

open Lowering

/-! ## Section 1: Ways through the graph -/

/-- A vertex is that of a node and has a slot for each of its inputs, and there is a wire for each
branch of each of them and no other. Every input has a branch. -/
structure Fed (p : Plan) (r : Compiler.Result) (t : VertexId) (v : Vertex) (n : Node) : Prop where
  /-- The vertex is that of the node. -/
  own : n ∈ p.nodes ∧ r.report.placement? n.id = some (.vertex t)
  /-- There is a slot for each input. -/
  slots : v.config.inputs.keys = List.range n.inputs.length
  /-- A slot counts the branches of its input, in a number of the machine. -/
  counts : ∀ i c, n.inputs[i]? = some c → ∃ slot, v.config.inputs.get? i = some slot ∧
    slot.wires = UInt32.ofNat (p.branchesOf c).length
  /-- The wires that end at the vertex are those for the branches of the inputs. -/
  incoming : ((r.graph.incoming t).map some).Perm
    (n.inputs.flatMap fun c => (p.branchesOf c).map (r.report.edge? t))
  /-- Every input has a branch. -/
  branches : ∀ c ∈ n.inputs, p.branchesOf c ≠ []

/-- Records flow through the graph of a result from inputs to outputs, and every vertex is on their
way. -/
structure Conducts (p : Plan) (r : Compiler.Result) : Prop where
  /-- Nothing ends at an input, and something leaves from it. -/
  input : ∀ t v, r.graph.vertex? t = some v → v.kind = .input →
    r.graph.incoming t = [] ∧ v.wires ≠ []
  /-- A task is fed on its one slot or its two slots, and something leaves from it. -/
  task : ∀ t v, r.graph.vertex? t = some v → v.kind = .task →
    (∃ n, p.Fed r t v n ∧ (n.inputs.length = 1 ∨ n.inputs.length = 2)) ∧ v.wires ≠ []
  /-- An output is fed on its one slot, and nothing leaves from it. -/
  output : ∀ t v, r.graph.vertex? t = some v → v.kind = .output →
    (∃ n, p.Fed r t v n ∧ n.inputs.length = 1) ∧ v.wires = []
  /-- A way along wires leads from an input to the vertex and on to an output. -/
  way : ∀ t v, r.graph.vertex? t = some v → ∃ s vs e ve,
    r.graph.vertex? s = some vs ∧ vs.kind = .input ∧
    r.graph.vertex? e = some ve ∧ ve.kind = .output ∧
    Relation.ReflTransGen r.graph.Wired s t ∧ Relation.ReflTransGen r.graph.Wired t e

variable {p : Plan} {policy : SpillPolicy} {job : JobId}

/-! ## Section 2: Wires that end at a vertex -/

/-- The edges of a callback are those of the leaving of a node with a vertex, and end at it. -/
theorem target_of_mem_edges {cb : Callback} (hcb : cb ∈ p.schedule) {e : Edge}
    (he : e ∈ (p.entries cb).filterMap p.edgeOf?) :
    ∃ n ∈ p.ownNodes, cb = .leave n ∧ e.target = p.vertexOf n.id := by
  obtain ⟨entry, hentry, hedge⟩ := List.mem_filterMap.mp he
  have hnode := p.mem_schedule.mp hcb
  cases p.of_mem_entries hnode.1 hentry with
  | made n => simp [edgeOf?] at hedge
  | hosted h => simp [edgeOf?] at hedge
  | described hf hi hch => simp [edgeOf?] at hedge
  | @wired n i c ch b hf hi hch hb =>
    obtain ⟨w, -, rfl⟩ := Option.map_eq_some_iff.mp hedge
    exact ⟨n, p.mem_ownNodes.mpr ⟨p.mem_entered.mpr hnode, hf⟩, rfl, rfl⟩

/-- Without a fault the wires that end at the vertex of a node are those that the node asks for. -/
theorem incoming_answer (hfault : p.schedule.findSome? p.callbackFault? = none) (lead : Node)
    {n : Node} (hn : n ∈ p.ownNodes) :
    (((p.answer policy job lead).graph.incoming (p.vertexOf n.id)).map some).Perm
      (n.inputs.flatMap fun c => (p.branchesOf c).map
        ((p.answer policy job lead).report.edge? (p.vertexOf n.id))) := by
  have hr : p.Places (p.answer policy job lead).report := places_answer lead
  have hleave : .leave n ∈ p.schedule :=
    p.mem_schedule.mpr (p.mem_entered.mp (p.mem_ownNodes.mp hn).1)
  have hasked := entries_edges hfault hr hleave
  simp only [askedBy, (hr.of_own hn).2] at hasked
  refine (((edges_perm_entries lead).filter _).map some).trans (List.Perm.of_eq ?_)
  -- Only the leaving of the node has edges that end at its vertex, and all of its edges do.
  rw [journal, List.filterMap_flatMap, List.filter_flatMap,
    flatMap_of_unique p.nodup_schedule hleave]
  · rw [← hasked, List.filter_eq_self.mpr]
    intro e he
    obtain ⟨m, hm, hcb, htarget⟩ := target_of_mem_edges hleave he
    obtain rfl : n = m := by simpa using hcb
    exact decide_eq_true htarget
  · intro cb hcb hne
    refine List.filter_eq_nil_iff.mpr fun e he hends => hne ?_
    obtain ⟨m, hm, rfl, htarget⟩ := target_of_mem_edges hcb he
    rw [vertexOf_inj hm hn (htarget.symm.trans (of_decide_eq_true hends))]

/-! ## Section 3: Ways up and down -/

/-- A node with a vertex supplies another one. -/
def Passes (p : Plan) (g n : Node) : Prop := g ∈ p.ownNodes ∧ n ∈ p.ownNodes ∧ p.Supplies g n

/-- What leaves from the vertex of a node comes to the vertex of a sink. -/
def Drained (p : Plan) (g : Node) : Prop :=
  ∃ e ∈ p.ownNodes, e.kind = .sink ∧ Relation.ReflTransGen p.Passes g e

/-- What comes to the vertex of a node comes from the vertex of a source. -/
def Sourced (p : Plan) (n : Node) : Prop :=
  ∃ s ∈ p.ownNodes, (∃ serializer, s.kind = .source serializer) ∧
    Relation.ReflTransGen p.Passes s n

theorem Passes.drained {g n : Node} (h : p.Passes g n) (hn : p.Drained n) : p.Drained g := by
  obtain ⟨e, he, hkind, hway⟩ := hn
  exact ⟨e, he, hkind, .head h hway⟩

theorem Passes.sourced {g n : Node} (h : p.Passes g n) (hg : p.Sourced g) : p.Sourced n := by
  obtain ⟨s, hs, hkind, hway⟩ := hg
  exact ⟨s, hs, hkind, .tail hway h⟩

/-- Every node with a vertex is sourced. -/
theorem sourced_of_own (h : p.Built) {n : Node} (hn : n ∈ p.ownNodes) : p.Sourced n := by
  induction hrank : p.rank n.id using Nat.strongRecOn generalizing n with
  | ind k ih =>
    obtain ⟨hentered, hf⟩ := p.mem_ownNodes.mp hn
    obtain ⟨hnode, hu, -⟩ := p.mem_entered.mp hentered
    by_cases hsource : ∃ serializer, n.kind = .source serializer
    · exact ⟨n, hn, hsource, .refl⟩
    · -- Only a source has no input, and the first branch of an input ranks lower.
      have hinputs : n.inputs ≠ [] := by
        intro hnil
        have hcount := h.inputCount n (Array.mem_of_getElem? hnode)
        cases hkind : n.kind <;>
          simp_all [Kind.inputCount?, Node.isUnion, Kind.isUnion]
      obtain ⟨c, hc⟩ := List.exists_mem_of_ne_nil _ hinputs
      obtain ⟨b, hb⟩ := List.exists_mem_of_ne_nil _ (branchesOf_ne_nil h hnode hc)
      obtain ⟨m, hm, hid⟩ := branch_entered hentered hc hb
      obtain ⟨g, hg, hgid⟩ := exists_host_own hm
      have hsupplies : p.Supplies g n := ⟨c, hc, b, hb, by rw [hgid, hid]⟩
      have hlt := hsupplies.rank_lt hnode
      exact Passes.sourced ⟨hg, hn, hsupplies⟩ (ih _ (hrank ▸ hlt) hg rfl)

section
variable (hfault : p.schedule.findSome? p.callbackFault? = none)
include hfault

/-- A way from node to node is one along wires. -/
theorem way_of_passes (lead : Node) {g n : Node} (h : Relation.ReflTransGen p.Passes g n) :
    Relation.ReflTransGen (p.answer policy job lead).graph.Wired (p.vertexOf g.id)
      (p.vertexOf n.id) :=
  h.lift (fun m => p.vertexOf m.id) fun _ _ hpasses =>
    wired_of_supplies hfault lead hpasses.1 hpasses.2.1 hpasses.2.2

variable (h : p.Built)
include h

/-- What is read by a node that is reached comes to a sink: the host of a branch of its inputs is
drained. -/
theorem drained_of_branch {id : NodeId} (hreach : p.Reachable id) {n : Node}
    (hn : p.node? id = some n) {c : ChannelId} (hc : c ∈ n.inputs) {b : Channel}
    (hb : b ∈ p.branchesOf c) {g : Node} (hg : g ∈ p.ownNodes) (hhost : p.host b.source = g.id) :
    p.Drained g := by
  -- The induction goes down from the sinks; what reads the node has been dealt with.
  induction hreach generalizing n c b g with
  | sink hsink =>
    obtain rfl := p.id_eq hn
    have hkind := h.sink_kind hn hsink
    have hown := p.sink_mem_ownNodes hn hkind hsink
    exact Passes.drained ⟨hg, hown, c, hc, b, hb, hhost⟩ ⟨n, hown, hkind, .refl⟩
  | @input id m d ch hreach hm hd hch ih =>
    have hid := p.id_eq hn
    rw [← hid] at hn
    cases hu : n.isUnion with
    | true =>
      -- The reader of a union reads its branches.
      refine ih hm hd (b := b) ?_ hg hhost
      rw [p.branchesOf_of_union hch (hid ▸ hn) hu]
      exact List.mem_flatMap.mpr ⟨c, hc, hb⟩
    | false =>
      have hentered : n ∈ p.entered := p.mem_entered.mpr ⟨hn, hu, hid ▸ hreach.input hm hd hch⟩
      have hbranches := p.branchesOf_of_not_union hch (hid ▸ hn) hu
      cases hf : p.fuses n with
      | false =>
        have hown := p.mem_ownNodes.mpr ⟨hentered, hf⟩
        have hdrained : p.Drained n :=
          ih hm hd (b := ch) (by simp [hbranches]) hown (hid ▸ p.host_of_not_fuses hn hf)
        exact Passes.drained ⟨hg, hown, c, hc, b, hb, hhost⟩ hdrained
      | true =>
        -- A fused node has the host of its only branch.
        obtain ⟨c', dh, producer, hinputs, hdh, hfused, -⟩ :=
          exists_sole hfault (p.mem_fusedNodes.mpr ⟨hentered, hf⟩)
        obtain rfl : c = c' := by simpa [hinputs] using hc
        rw [p.branchesOf_of_not_union hdh hfused.source hfused.not_union, List.mem_singleton] at hb
        subst hb
        exact ih hm hd (b := ch) (by simp [hbranches]) hg (hid ▸ (hfused.host_eq hn).trans hhost)

/-- Every node with a vertex is drained. -/
theorem drained_of_own {n : Node} (hn : n ∈ p.ownNodes) : p.Drained n := by
  obtain ⟨hentered, hf⟩ := p.mem_ownNodes.mp hn
  obtain ⟨hnode, hu, hreach⟩ := p.mem_entered.mp hentered
  have hhost := p.host_of_not_fuses hnode hf
  generalize hid : n.id = id at hreach hhost
  cases hreach with
  | sink hsink =>
    subst hid
    exact ⟨n, hn, h.sink_kind hnode hsink, .refl⟩
  | @input id m d ch hreach hm hd hch =>
    have hbranches := p.branchesOf_of_not_union hch (hid ▸ hnode) hu
    exact drained_of_branch hfault h hreach hm hd (b := ch) (by simp [hbranches]) hn
      (hhost.trans hid.symm)

end

/-! ## Section 4: Nothing leaves from a sink -/

/-- If sinks list no outgoing channels, and all channels are listed, then no host of a node that a
channel starts at is a sink. -/
theorem host_ne_sink (htied : p.Tied) (hsinks : ∀ n ∈ p.nodes, n.kind = .sink → n.outgoing = [])
    {c : ChannelId} {ch : Channel} (hch : p.channel? c = some ch) {g : Node} (hg : g ∈ p.ownNodes)
    (hhost : p.host ch.source = g.id) : g.kind ≠ .sink := by
  induction hid : ch.source using p.host_induction generalizing c ch with
  | missing id hnone =>
    obtain ⟨n, hn⟩ := p.exists_source hch
    simp [hid, hnone] at hn
  | own id n hn hf =>
    subst hid
    rw [p.host_of_not_fuses hn hf] at hhost
    obtain rfl : n = g := Option.some.inj (hn.symm.trans (hhost ▸ p.node?_of_own hg))
    intro hkind
    have hlisted := htied.mem_outgoing hch hn
    simp [hsinks n (Array.mem_of_getElem? hn) hkind] at hlisted
  | fused id n dh producer hn hfused ih =>
    -- The producer is the start of a channel too.
    subst hid
    obtain ⟨d, rest, hinputs, hdh⟩ := hfused.input
    exact ih hdh ((hfused.host_eq hn).symm.trans hhost) rfl

/-- A sink in a plan that a builder answers lists no outgoing channels. -/
theorem outgoing_of_build {b : Builder} (hb : b.build = .ok p) {n : Node} (hn : n ∈ p.nodes)
    (hkind : n.kind = .sink) : n.outgoing = [] := by
  obtain ⟨hfit, -, hparts⟩ := build_ok hb
  have hnodes : p.nodes = b.parts.nodes := by rw [hparts]
  have hnone := hfit n (hnodes ▸ hn)
  simp only [Builder.nodeMisfit?, Option.or_eq_none_iff] at hnone
  have hsink := hnone.2.2.2
  by_contra hne
  simp [hkind, Kind.isSink, hne] at hsink

/-! ## Section 5: Every vertex is on a way -/

theorem kind_sharedVertex (lead n : Node) :
    (p.sharedVertex policy lead n).kind = vertexKind n := by
  simp only [sharedVertex]
  split <;> rfl

/-- In a built plan without a fault the vertex of a node is fed. -/
theorem fed_answer (h : p.Built) (hfault : p.schedule.findSome? p.callbackFault? = none)
    (lead : Node) {n : Node} (hn : n ∈ p.ownNodes) :
    p.Fed (p.answer policy job lead) (p.vertexOf n.id) (p.sharedVertex policy lead n) n where
  own := (places_answer lead).of_own hn
  slots := by
    rw [config_sharedVertex]
    exact keys_fullLayout hn
  counts := fun i d hi => by
    have hnode := p.node?_of_own hn
    obtain ⟨ch, hch, -⟩ := p.exists_channel hnode (List.mem_of_getElem? hi)
    refine ⟨_, slot_sharedVertex policy lead hn hi hch, ?_⟩
    simp only [branchesOf, hch]
    rfl
  incoming := incoming_answer hfault lead hn
  branches := fun _ => branchesOf_ne_nil h (p.node?_of_own hn)

/-- Something leaves from a vertex from which a way leads to another one. -/
theorem wires_ne_nil {g : JobGraph} {t e : VertexId} {v : Vertex} (hv : g.vertex? t = some v)
    (hway : Relation.ReflTransGen g.Wired t e) (hne : t ≠ e) : v.wires ≠ [] := by
  rcases Relation.ReflTransGen.cases_head hway with heq | ⟨u, ⟨v', hv', w, hw, -⟩, -⟩
  · exact absurd heq hne
  · obtain rfl := Option.some.inj (hv.symm.trans hv')
    exact List.ne_nil_of_mem hw

/-- Nothing leaves from the vertex of a sink. -/
theorem wires_of_sink (htied : p.Tied) (hsinks : ∀ n ∈ p.nodes, n.kind = .sink → n.outgoing = [])
    (lead : Node) {n : Node} (hn : n ∈ p.ownNodes) (hkind : n.kind = .sink) :
    (p.sharedVertex policy lead n).wires = [] := by
  by_contra hne
  obtain ⟨w, hw⟩ := List.exists_mem_of_ne_nil _ hne
  have hvertex : (p.answer policy .zero lead).graph.vertex? (p.vertexOf n.id) =
      some (p.sharedVertex policy lead n) := vertex?_answer lead hn
  obtain ⟨g, hg, m, hm, hid, -, c, hc, b, hb, hhost⟩ := exists_supplies lead
    ⟨_, hvertex, w, hw, rfl⟩
  obtain rfl := vertexOf_inj hn hg hid
  -- The wire is for a branch, and a branch is a channel that starts at a node of the host.
  obtain ⟨ch, hch, -, hb⟩ := p.exists_channel_of_branch (p.node?_of_own hm) hc hb
  obtain ⟨⟨d, hd⟩, -⟩ := p.mem_flat hch hb
  exact host_ne_sink htied hsinks hd hg hhost hkind

/-- In a result for a built plan every vertex lies on a way from an input to an output. Nothing ends at
an input and nothing leaves from an output; everything else has wires on every slot and wires that
leave. -/
theorem graph_conducts {jobName : String} {config : Configuration} {instanceType : Option String}
    {calls : List Builder.Call}
    (hbuild : ((Builder.new jobName config instanceType).after calls).build = .ok p)
    {c : Compiler} {r : Compiler.Result} (h : c.compile job p = .ok r) : p.Conducts r := by
  have htied := tied_of_build (tied_after jobName config instanceType calls) hbuild
  have hbuilt := built_of_build hbuild
  obtain ⟨lead, hfault, -, rfl⟩ := answer_of_ok h
  have hcount : ∀ {n : Node}, n ∈ p.ownNodes →
      ∀ k, n.kind.inputCount? = some k → n.inputs.length = k := fun hn =>
    hbuilt.inputCount _ (mem_nodes_of_entered (p.mem_ownNodes.mp hn).1)
  have hvertex : ∀ {n : Node}, n ∈ p.ownNodes →
      (p.answer c.policy job lead).graph.vertex? (p.vertexOf n.id) =
        some (p.sharedVertex c.policy lead n) := fun hn => vertex?_answer lead hn
  -- A node that is no sink is on a way that goes on.
  have hleaves : ∀ {n : Node}, n ∈ p.ownNodes → n.kind ≠ .sink →
      (p.sharedVertex c.policy lead n).wires ≠ [] := by
    intro n hn hkind
    obtain ⟨e, he, hsink, hway⟩ := drained_of_own hfault hbuilt hn
    refine wires_ne_nil (hvertex hn) (way_of_passes hfault lead hway) fun heq => ?_
    exact hkind (vertexOf_inj hn he heq ▸ hsink)
  refine {
    input := fun t v hv hkind => ?_
    task := fun t v hv hkind => ?_
    output := fun t v hv hkind => ?_
    way := fun t v hv => ?_ }
  all_goals obtain ⟨n, hn, rfl, rfl⟩ := exists_of_vertex? lead hv
  · rw [kind_sharedVertex] at hkind
    obtain ⟨serializer, hn'⟩ : ∃ serializer, n.kind = .source serializer := by
      revert hkind
      cases hk : n.kind <;> simp [vertexKind, hk]
    have hinputs := List.length_eq_zero_iff.mp (hcount hn 0 (by simp [hn', Kind.inputCount?]))
    have hincoming : (((p.answer c.policy job lead).graph.incoming (p.vertexOf n.id)).map some).Perm
        _ := incoming_answer hfault lead hn
    rw [hinputs, List.flatMap_nil] at hincoming
    exact ⟨List.map_eq_nil_iff.mp hincoming.eq_nil, hleaves hn (by simp [hn'])⟩
  · rw [kind_sharedVertex] at hkind
    refine ⟨⟨n, fed_answer hbuilt hfault lead hn, ?_⟩, hleaves hn ?_⟩
    · obtain ⟨-, hu, -⟩ := p.mem_entered.mp (p.mem_ownNodes.mp hn).1
      revert hkind hu
      have := hcount hn
      cases hk : n.kind <;> simp_all [vertexKind, Kind.inputCount?, Node.isUnion, Kind.isUnion]
    · intro hsink
      simp [vertexKind, hsink] at hkind
  · rw [kind_sharedVertex] at hkind
    have hsink : n.kind = .sink := by
      revert hkind
      cases hk : n.kind <;> simp [vertexKind, hk]
    exact ⟨⟨n, fed_answer hbuilt hfault lead hn, hcount hn 1 (by simp [hsink, Kind.inputCount?])⟩,
      wires_of_sink htied (fun _ => outgoing_of_build hbuild) lead hn hsink⟩
  · obtain ⟨s, hs, ⟨serializer, hsource⟩, hup⟩ := sourced_of_own hbuilt hn
    obtain ⟨e, he, hsink, hdown⟩ := drained_of_own hfault hbuilt hn
    refine ⟨_, _, _, _, hvertex hs, ?_, hvertex he, ?_,
      way_of_passes hfault lead hup, way_of_passes hfault lead hdown⟩
    · rw [kind_sharedVertex, vertexKind, hsource]
    · rw [kind_sharedVertex, vertexKind, hsink]

/-- In the pipeline that reads, splits, trims and writes lines both vertices are on the way of the
records. -/
theorem pipeline_conducts : ∃ r, Compiler.standard.compile .zero pipeline = .ok r ∧
    pipeline.Conducts r := by
  obtain ⟨r, hr⟩ := pipeline_compiles .standard .zero
  exact ⟨r, hr, graph_conducts pipeline_built hr⟩

end Plan

end Dataflow
