import Mathlib.Logic.Relation
import Dataflow.Proofs.Placements

/-! # The graph has no cycle

    A wire leads from the host of a producer to a consumer with a vertex. The
    host of a node ranks no higher than the node, and a branch of an input comes
    from a node that ranks below the consumer. So the rank of the nodes behind
    the vertices grows along every wire, although fused nodes have no vertex of
    their own and unions are passed over.

    Main statements:
    - `exists_supplies`, `wired_of_supplies`: the wires of an answer, by the nodes
      behind their ends
    - `graph_wellFormed`: the graph of a result is a well-formed acyclic graph
-/

namespace Dataflow

/-! ## Section 1: Well-formed graphs -/

namespace JobGraph

/-- A wire leads from one vertex to another. -/
def Wired (g : JobGraph) (source target : VertexId) : Prop :=
  ∃ v, g.vertex? source = some v ∧ ∃ w ∈ v.wires, w.target = target

/-- Vertices stand where their handles say, wires end at other vertices, and following wires never
leads back. -/
structure WellFormed (g : JobGraph) : Prop where
  /-- A vertex stands where its handle says. -/
  id_eq : ∀ id v, g.vertex? id = some v → v.id = id
  /-- A wire ends at a vertex that exists. -/
  target : ∀ s t, g.Wired s t → (g.vertex? t).isSome = true
  /-- No vertex is wired to itself. -/
  no_loop : ∀ s, ¬ g.Wired s s
  /-- No way along wires leads back to where it started. -/
  acyclic : ∀ s, ¬ Relation.TransGen g.Wired s s

end JobGraph

namespace Plan

open Lowering

variable {p : Plan} {policy : SpillPolicy} {job : JobId}

/-! ## Section 2: Supply -/

/-- The vertex of one node supplies another: it runs the source of a branch of one of its inputs. -/
def Supplies (p : Plan) (g n : Node) : Prop :=
  ∃ c ∈ n.inputs, ∃ b ∈ p.branchesOf c, p.host b.source = g.id

/-- The source of a branch of an input ranks below the node. -/
theorem rank_branch_lt {n : Node} (hn : p.node? n.id = some n) {c : ChannelId} (hc : c ∈ n.inputs)
    {b : Channel} (hb : b ∈ p.branchesOf c) : p.rank b.source < p.rank n.id := by
  obtain ⟨ch, hch, -, hb⟩ := p.exists_channel_of_branch hn hc hb
  obtain ⟨-, -, -, hle⟩ := p.mem_flat hch hb
  exact Nat.lt_of_le_of_lt hle (p.rank_lt_of_input hn hc hch)

theorem Supplies.rank_lt {g n : Node} (h : p.Supplies g n) (hn : p.node? n.id = some n) :
    p.rank g.id < p.rank n.id := by
  obtain ⟨c, hc, b, hb, hhost⟩ := h
  calc p.rank g.id
    _ = p.rank (p.host b.source) := by rw [hhost]
    _ ≤ p.rank b.source := p.rank_host_le b.source
    _ < p.rank n.id := rank_branch_lt hn hc hb

/-! ## Section 3: Wires of an answer -/

theorem wires_sharedVertex (lead n : Node) : (p.sharedVertex policy lead n).wires =
    p.wiresAfter (p.journal p.schedule) n.id := by
  simp only [sharedVertex]
  split <;> rfl

theorem id_sharedVertex (lead n : Node) : (p.sharedVertex policy lead n).id = p.vertexOf n.id := by
  simp only [sharedVertex]
  split <;> rfl

/-- Every branch of an input of a node with a vertex is wired. -/
theorem mem_journal_of_branch {n : Node} (hn : n ∈ p.ownNodes) {c : ChannelId} (hc : c ∈ n.inputs)
    {b : Channel} (hb : b ∈ p.branchesOf c) : ∃ i, .wired n i b ∈ p.journal p.schedule := by
  obtain ⟨hentered, hf⟩ := p.mem_ownNodes.mp hn
  have hnode := p.mem_entered.mp hentered
  obtain ⟨i, hi⟩ := List.mem_iff_getElem?.mp hc
  obtain ⟨ch, hch, -, hb⟩ := p.exists_channel_of_branch hnode.1 hc hb
  refine ⟨i, List.mem_flatMap.mpr ⟨.leave n, p.mem_schedule.mpr hnode, ?_⟩⟩
  simp only [entries, hf, Bool.false_eq_true, if_false]
  refine List.mem_flatMap.mpr ⟨(c, i), List.mem_zipIdx_iff_getElem?.mpr hi, ?_⟩
  simp [slotEntries, hch, hb]

/-- A wire of an answer leads from the vertex of one node to the vertex of another that it supplies. -/
theorem exists_supplies (lead : Node) {s t : VertexId}
    (h : (p.answer policy job lead).graph.Wired s t) : ∃ g ∈ p.ownNodes, ∃ n ∈ p.ownNodes,
      s = p.vertexOf g.id ∧ t = p.vertexOf n.id ∧ p.Supplies g n := by
  obtain ⟨v, hv, w, hw, rfl⟩ := h
  obtain ⟨g, hg, rfl, rfl⟩ := exists_of_vertex? lead hv
  rw [wires_sharedVertex] at hw
  obtain ⟨e, he, hwire⟩ := List.mem_filterMap.mp hw
  cases e with
  | made n => simp [wireFrom?] at hwire
  | described n i ch => simp [wireFrom?] at hwire
  | hosted n ch => simp [wireFrom?] at hwire
  | wired n i b =>
    obtain ⟨hn, c, hc, hb⟩ := wired_mem_journal he
    simp only [wireFrom?] at hwire
    split at hwire
    · rename_i hhost
      obtain ⟨⟨transport, pattern⟩, -, rfl⟩ := Option.map_eq_some_iff.mp hwire
      exact ⟨g, hg, n, hn, rfl, rfl, c, hc, b, hb, hhost⟩
    · simp at hwire

/-- Without a fault a node with a vertex is wired to every node with a vertex that it supplies. -/
theorem wired_of_supplies (hfault : p.schedule.findSome? p.callbackFault? = none) (lead : Node)
    {g n : Node} (hg : g ∈ p.ownNodes) (hn : n ∈ p.ownNodes) (h : p.Supplies g n) :
    (p.answer policy job lead).graph.Wired (p.vertexOf g.id) (p.vertexOf n.id) := by
  obtain ⟨c, hc, b, hb, hhost⟩ := h
  obtain ⟨i, hentry⟩ := mem_journal_of_branch hn hc hb
  obtain ⟨⟨transport, pattern⟩, hw⟩ := exists_wire hfault hn hc hb
  refine ⟨_, vertex?_answer lead hg, ⟨p.vertexOf n.id, transport, pattern⟩, ?_, rfl⟩
  rw [wires_sharedVertex]
  refine List.mem_filterMap.mpr ⟨_, hentry, ?_⟩
  simp [wireFrom?, hhost, hw, Except.toOption]

/-! ## Section 4: No way leads back -/

/-- A way along wires leads from a vertex to one whose node ranks higher. -/
theorem rank_lt_of_transGen (lead : Node) {s t : VertexId}
    (h : Relation.TransGen (p.answer policy job lead).graph.Wired s t) : ∃ g ∈ p.ownNodes,
      ∃ n ∈ p.ownNodes, s = p.vertexOf g.id ∧ t = p.vertexOf n.id ∧ p.rank g.id < p.rank n.id := by
  have step : ∀ {s t}, (p.answer policy job lead).graph.Wired s t → ∃ g ∈ p.ownNodes,
      ∃ n ∈ p.ownNodes, s = p.vertexOf g.id ∧ t = p.vertexOf n.id ∧ p.rank g.id < p.rank n.id := by
    intro s t hwired
    obtain ⟨g, hg, n, hn, hs, ht, hsupplies⟩ := exists_supplies lead hwired
    have hnode := p.node?_of_own hn
    exact ⟨g, hg, n, hn, hs, ht, hsupplies.rank_lt hnode⟩
  induction h with
  | single hwired => exact step hwired
  | tail _ hwired ih =>
    -- The way so far and the last wire meet at one vertex, which is that of one node.
    obtain ⟨g, hg, m, hm, hs, hmid, hlt⟩ := ih
    obtain ⟨m', hm', n, hn, hmid', ht, hlt'⟩ := step hwired
    obtain rfl := vertexOf_inj hm hm' (hmid.symm.trans hmid')
    exact ⟨g, hg, n, hn, hs, ht, hlt.trans hlt'⟩

/-- The graph of a result is well formed: vertices stand at their numbers, wires end at other vertices
that exist, and there is no cycle of wires. -/
theorem graph_wellFormed {c : Compiler} {r : Compiler.Result} (h : c.compile job p = .ok r) :
    r.graph.WellFormed := by
  obtain ⟨lead, hfault, -, rfl⟩ := answer_of_ok h
  have acyclic : ∀ s, ¬ Relation.TransGen (p.answer c.policy job lead).graph.Wired s s := by
    intro s hcycle
    obtain ⟨g, hg, n, hn, hs, ht, hlt⟩ := rank_lt_of_transGen lead hcycle
    obtain rfl := vertexOf_inj hg hn (hs.symm.trans ht)
    exact Nat.lt_irrefl _ hlt
  refine {
    id_eq := fun id v hv => ?_
    target := fun s t hwired => ?_
    no_loop := fun s hwired => acyclic s (.single hwired)
    acyclic }
  · obtain ⟨n, -, rfl, rfl⟩ := exists_of_vertex? lead hv
    exact id_sharedVertex lead n
  · obtain ⟨g, -, n, hn, -, rfl, -⟩ := exists_supplies lead hwired
    rw [vertex?_answer lead hn]
    rfl

/-- The graph of the plan that joins two sources is well formed. -/
theorem wordCount_wellFormed : ∃ r, Compiler.standard.compile .zero wordCount = .ok r ∧
    r.graph.WellFormed := by
  obtain ⟨r, hr⟩ := wordCount_compiles .standard .zero
  exact ⟨r, hr, graph_wellFormed hr⟩

end Plan

end Dataflow
