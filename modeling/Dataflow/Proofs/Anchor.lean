import Dataflow.Proofs.FanOut
import Dataflow.Proofs.Serializers

/-! # The anchor

    All vertices share the instances of one of them. While the graph is made
    the anchor moves to every vertex that has more subtasks than all before it;
    in the end it is the first of the vertices with the most subtasks. Only what
    is made a vertex counts: the nodes that are fused, and the rest of the plan,
    cannot move it.

    Main statement:
    - `anchor_leads`: where the anchor is, what it has, and what it depends on
-/

namespace Dataflow

/-! ## Section 1: Leading vertices -/

namespace JobGraph

/-- A vertex leads: no other has more subtasks, and none of a smaller number has as many. -/
def Leads (g : JobGraph) (id : VertexId) : Prop :=
  ∃ v, g.vertex? id = some v ∧ ∀ id' v', g.vertex? id' = some v' →
    v'.parallelism ≤ v.parallelism ∧ (v'.parallelism = v.parallelism → id.index ≤ id'.index)

/-- The subtasks of the vertices, in their order. -/
def subtasks (g : JobGraph) : List UInt32 := g.vertices.toList.map Vertex.parallelism

theorem exists_vertex?_of_subtasks {g g' : JobGraph} (h : g'.subtasks = g.subtasks) {id : VertexId}
    {v : Vertex} (hv : g.vertex? id = some v) :
    ∃ v', g'.vertex? id = some v' ∧ v'.parallelism = v.parallelism := by
  have hat := congrArg (·[id.index]?) h
  simp only [subtasks, List.getElem?_map, Array.getElem?_toList] at hat
  have hv : g.vertices[id.index]? = some v := hv
  rw [hv, Option.map_some] at hat
  exact Option.map_eq_some_iff.mp hat

/-- The numbers of subtasks decide which vertex leads. -/
theorem Leads.eq_of_subtasks {g g' : JobGraph} (h : g'.subtasks = g.subtasks) {id id' : VertexId}
    (hid : g.Leads id) (hid' : g'.Leads id') : id' = id := by
  obtain ⟨v, hv, hfirst⟩ := hid
  obtain ⟨v', hv', hfirst'⟩ := hid'
  -- Each of the two graphs has a vertex at the place of the other's, with as many subtasks.
  obtain ⟨w, hw, hwv⟩ := exists_vertex?_of_subtasks h hv
  obtain ⟨w', hw', hwv'⟩ := exists_vertex?_of_subtasks h.symm hv'
  obtain ⟨hle, hindex⟩ := hfirst id' w' hw'
  obtain ⟨hle', hindex'⟩ := hfirst' id w hw
  have heq : v.parallelism = v'.parallelism :=
    UInt32.le_antisymm (hwv ▸ hle') (hwv' ▸ hle)
  have hlt := hindex (hwv'.trans heq.symm)
  have hgt := hindex' (hwv.trans heq)
  exact congrArg Handle.mk (Nat.le_antisymm hgt hlt)

end JobGraph

namespace Plan

open Lowering

/-! ## Section 2: Anchors of a plan -/

/-- The subtasks of the nodes with a vertex, in the order in which a walk enters them first. -/
def ownSubtasks (p : Plan) (r : Report) : List UInt32 :=
  (p.visits.entered.filter fun n => (r.own? n.id).isSome).map Node.parallelism

/-- The anchor of a result is the first vertex with the most subtasks, all share its instances, and
it alone has the type of instances that the plan sets. -/
structure Anchored (p : Plan) (r : Compiler.Result) : Prop where
  /-- The vertices have the subtasks of the nodes that they are made for, in the order of their
  making. -/
  subtasks : r.graph.subtasks = p.ownSubtasks r.report
  /-- The anchor is the first of the vertices with the most subtasks. -/
  leads : r.graph.Leads r.report.anchor
  /-- Every vertex shares the instances of the anchor. -/
  shared : ∀ id v, r.graph.vertex? id = some v → v.sharesWith = r.report.anchor
  /-- One vertex shares its own instances. -/
  alone : ∃! id, ∃ v, r.graph.vertex? id = some v ∧ v.sharesWith = id
  /-- The anchor has the type of instances of the plan, and every other vertex has none. -/
  instanceType : ∀ id v, r.graph.vertex? id = some v →
    v.instanceType = if id = r.report.anchor then p.instanceType else none
  /-- A missing type of instances is reported for the anchor, and nothing else is reported. -/
  diagnostics : r.report.diagnostics =
    if p.instanceType = none then [.missingInstanceType r.report.anchor] else []

variable {p : Plan} {policy : SpillPolicy} {job : JobId}

theorem Places.ownSubtasks {r : Report} (h : p.Places r) :
    p.ownSubtasks r = p.ownNodes.map Node.parallelism := by
  unfold Plan.ownSubtasks
  rw [visits_eq]
  congr 1
  apply List.filter_congr
  intro n hn
  rw [h.own? hn]
  cases p.fuses n <;> rfl

theorem subtasks_answer (lead : Node) : (p.answer policy job lead).graph.subtasks =
    p.ownNodes.map Node.parallelism := by
  unfold JobGraph.subtasks
  rw [vertices_answer, List.map_map]
  exact List.map_congr_left fun n _ => parallelism_sharedVertex lead n

/-- The vertex of the node that leads is the one that leads in the graph. -/
theorem leads_answer {lead : Node} (hlead : leading p.ownNodes = some lead) :
    (p.answer policy job lead).graph.Leads (p.vertexOf lead.id) := by
  obtain ⟨i, hi, hfirst⟩ := leading_first hlead
  have hmem := List.mem_of_getElem? hi
  have hindex : (p.vertexOf lead.id).index = i := (vertexOf_index_eq_iff hmem hi).mpr rfl
  refine ⟨p.sharedVertex policy lead lead, vertex?_answer lead hmem, fun id v hv => ?_⟩
  obtain ⟨n, hn, rfl, rfl⟩ := exists_of_vertex? lead hv
  rw [parallelism_sharedVertex, parallelism_sharedVertex, hindex]
  exact hfirst _ n (getElem?_vertexOf hn)

theorem sharesWith_sharedVertex (lead n : Node) :
    (p.sharedVertex policy lead n).sharesWith = p.vertexOf lead.id := by
  unfold sharedVertex
  -- The anchor has been made to share its own instances, and this is left as it is.
  by_cases h : (p.fullVertex policy n).id = p.vertexOf lead.id
  · rw [if_pos h]
    exact h
  · rw [if_neg h]

theorem instanceType_sharedVertex (lead n : Node) : (p.sharedVertex policy lead n).instanceType =
    if p.vertexOf n.id = p.vertexOf lead.id then p.instanceType else none := by
  unfold sharedVertex
  have hid : (p.fullVertex policy n).id = p.vertexOf n.id := rfl
  by_cases h : p.vertexOf n.id = p.vertexOf lead.id
  · rw [if_pos h, if_pos (hid.trans h)]
  · rw [if_neg h, if_neg (hid ▸ h)]
    rfl

theorem anchored_answer {lead : Node} (hlead : leading p.ownNodes = some lead) :
    p.Anchored (p.answer policy job lead) := by
  have hshared : ∀ id v, (p.answer policy job lead).graph.vertex? id = some v →
      v.sharesWith = p.vertexOf lead.id := by
    intro id v hv
    obtain ⟨n, -, -, rfl⟩ := exists_of_vertex? lead hv
    exact sharesWith_sharedVertex lead n
  refine {
    subtasks := by rw [subtasks_answer, (places_answer lead).ownSubtasks]
    leads := leads_answer hlead
    shared := hshared
    alone := ?_
    instanceType := fun id v hv => ?_
    diagnostics := ?_ }
  · refine ⟨p.vertexOf lead.id, ⟨_, vertex?_answer lead (leading_mem hlead),
      sharesWith_sharedVertex lead lead⟩, ?_⟩
    rintro id ⟨v, hv, hid⟩
    rw [← hid, hshared id v hv]
  · obtain ⟨n, -, rfl, rfl⟩ := exists_of_vertex? lead hv
    exact instanceType_sharedVertex lead n
  · show (if p.instanceType.isNone then _ else _) = _
    cases p.instanceType <;> rfl

/-- In a result the anchor is the first of the vertices with the most subtasks, all vertices share
its instances, and it alone has the type of instances that the plan sets; if the plan sets none, this
is all that is reported. Any other plan whose vertices have the same subtasks in the same order has
the same anchor, whatever else is in it. -/
theorem anchor_leads {c : Compiler} {r : Compiler.Result} (h : c.compile job p = .ok r) :
    p.Anchored r ∧ ∀ (c' : Compiler) (job' : JobId) (p' : Plan) (r' : Compiler.Result),
      c'.compile job' p' = .ok r' → p'.ownSubtasks r'.report = p.ownSubtasks r.report →
        r'.report.anchor = r.report.anchor := by
  have hanchored : ∀ {c : Compiler} {job : JobId} {p : Plan} {r : Compiler.Result},
      c.compile job p = .ok r → p.Anchored r := by
    intro c job p r h
    obtain ⟨lead, -, hlead, rfl⟩ := answer_of_ok h
    exact anchored_answer hlead
  refine ⟨hanchored h, fun c' job' p' r' h' hsame => ?_⟩
  have ha := hanchored h
  have ha' := hanchored h'
  refine ha.leads.eq_of_subtasks ?_ ha'.leads
  rw [ha'.subtasks, ha.subtasks, hsame]

/-- Two plans with three vertices of one subtask each, in one of which two nodes are fused: both are
anchored at their first vertex. -/
theorem forked_anchored : ∃ r r', Compiler.standard.compile .zero forked = .ok r ∧
    Compiler.standard.compile .zero spliced = .ok r' ∧ forked.Anchored r ∧
    spliced.ownSubtasks r'.report = forked.ownSubtasks r.report ∧
    r'.report.anchor = r.report.anchor := by
  obtain ⟨r, hr⟩ := forked_compiles .standard .zero
  obtain ⟨r', hr'⟩ := spliced_compiles .standard .zero
  obtain ⟨hanchored, hsame⟩ := anchor_leads hr
  have hsubtasks : spliced.ownSubtasks r'.report = forked.ownSubtasks r.report := by
    obtain ⟨lead, -, -, rfl⟩ := answer_of_ok hr
    obtain ⟨lead', -, -, rfl⟩ := answer_of_ok hr'
    rw [(places_answer lead).ownSubtasks, (places_answer lead').ownSubtasks]
    cbv
  exact ⟨r, r', hr, hr', hanchored, hsubtasks, hsame _ _ _ _ hr' hsubtasks⟩

end Plan

end Dataflow
