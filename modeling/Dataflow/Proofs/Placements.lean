import Dataflow.Proofs.Wires

/-! # Placements of nodes

    Every node of a plan is a vertex, a task fused into one, spliced out, or not
    reached; and every vertex and every fused task is that of one node.

    Main statement:
    - `placements_cover`: the nodes of a plan and what there is in the graph
      correspond one to one
-/

namespace Dataflow

namespace Lowering

/-! ## Section 1: Coverage -/

/-- The vertex of a node, if it has one of its own. -/
def Report.own? (r : Report) (id : NodeId) : Option VertexId :=
  match r.placement? id with
  | some (.vertex v) => some v
  | _ => none

end Lowering

/-- The configuration of a node: that of its vertex or that of its fused task. -/
def Compiler.Result.config? (r : Compiler.Result) (id : NodeId) : Option TaskConfig :=
  match r.report.placement? id with
  | some (.vertex v) => (r.graph.vertex? v).map fun vertex => vertex.config
  | some (.chained place) => (r.graph.vertex? place.host).bind fun vertex =>
    vertex.config.fused[place.position]?.map fun task => task.config
  | some .spliced | none => none

namespace Plan

open Lowering

/-- The nodes of a plan and what there is in the graph of a result correspond one to one. -/
structure Covers (p : Plan) (r : Compiler.Result) : Prop where
  /-- A node that is reached and no union is a vertex or a fused task. -/
  reached : ∀ n ∈ p.nodes, n.isUnion = false → p.Reachable n.id →
    (∃ v, r.report.placement? n.id = some (.vertex v)) ∨
      ∃ place, r.report.placement? n.id = some (.chained place)
  /-- A union is nothing by itself. -/
  union : ∀ n ∈ p.nodes, n.isUnion = true → r.report.placement? n.id = some .spliced
  /-- A node that is not reached has no place. -/
  unreached : ∀ n ∈ p.nodes, n.isUnion = false → ¬ p.Reachable n.id →
    r.report.placement? n.id = none
  /-- The vertex of a node exists. -/
  vertex : ∀ n ∈ p.nodes, ∀ v, r.report.placement? n.id = some (.vertex v) →
    (r.graph.vertex? v).isSome = true
  /-- A vertex is that of one node. -/
  vertex_owner : ∀ v, (r.graph.vertex? v).isSome = true →
    ∃! n, n ∈ p.nodes ∧ r.report.placement? n.id = some (.vertex v)
  /-- Vertices are numbered in the order in which a walk enters their nodes first. -/
  vertex_order : p.visits.entered.filterMap (fun n => r.report.own? n.id) =
    (List.range r.graph.vertices.size).map Handle.mk
  /-- The task of a fused node exists, and it has the name and the driver of the node. -/
  task : ∀ n ∈ p.nodes, ∀ place, r.report.placement? n.id = some (.chained place) →
    ∃ v t, r.graph.vertex? place.host = some v ∧ v.config.fused[place.position]? = some t ∧
      t.name = n.name ∧ n.kind.driver?.bind DriverStrategy.chainDriver? = some t.driver
  /-- A fused task is that of one node. -/
  task_owner : ∀ host v, r.graph.vertex? host = some v → ∀ j, j < v.config.fused.length →
    ∃! n, n ∈ p.nodes ∧ r.report.placement? n.id = some (.chained ⟨host, j⟩)
  /-- No task is fused into a fused task. -/
  task_flat : ∀ host v, r.graph.vertex? host = some v → ∀ t ∈ v.config.fused, t.config.fused = []

variable {p : Plan} {policy : SpillPolicy} {job : JobId} {r : Report}

/-! ## Section 2: Placements of nodes -/

/-- A node is a fused task exactly if it is reached and fused. -/
theorem Places.chained_iff (h : p.Places r) {n : Node} (hn : p.node? n.id = some n)
    (place : Place) : r.placement? n.id = some (.chained place) ↔
      n ∈ p.fusedNodes ∧ place = p.placeOf n := by
  rw [h n.id, hn, Option.bind_some, placementOf, mem_fusedNodes]
  constructor
  · intro h
    split at h
    · simp at h
    · split at h
      · rename_i hentered
        split at h
        · rename_i hf
          exact ⟨⟨hentered, hf⟩, by simpa using h.symm⟩
        · simp at h
      · simp at h
  · rintro ⟨⟨hentered, hf⟩, rfl⟩
    rw [if_neg (by simp [(p.mem_entered.mp hentered).2.1]), if_pos hentered, if_pos hf]

theorem mem_nodes_of_entered {n : Node} (hn : n ∈ p.entered) : n ∈ p.nodes :=
  Array.mem_of_getElem? (p.mem_entered.mp hn).1

/-- A node that is reached and not fused is placed at its vertex. -/
theorem Places.of_own (h : p.Places r) {n : Node} (hn : n ∈ p.ownNodes) :
    n ∈ p.nodes ∧ r.placement? n.id = some (.vertex (p.vertexOf n.id)) := by
  have hentered := (p.mem_ownNodes.mp hn).1
  exact ⟨mem_nodes_of_entered hentered,
    (h.vertex_iff (p.mem_entered.mp hentered).1 _).mpr ⟨hn, rfl⟩⟩

/-- A node that is reached and fused is placed among the guests of its host. -/
theorem Places.of_fused (h : p.Places r) {n : Node} (hn : n ∈ p.fusedNodes) :
    n ∈ p.nodes ∧ r.placement? n.id = some (.chained (p.placeOf n)) := by
  have hentered := (p.mem_fusedNodes.mp hn).1
  exact ⟨mem_nodes_of_entered hentered,
    (h.chained_iff (p.mem_entered.mp hentered).1 _).mpr ⟨hn, rfl⟩⟩

theorem Places.union (h : p.Places r) {n : Node} (hn : p.node? n.id = some n)
    (hu : n.isUnion = true) : r.placement? n.id = some .spliced := by
  rw [h n.id, hn, Option.bind_some, placementOf, if_pos hu]

theorem Places.unreached (h : p.Places r) {n : Node} (hn : p.node? n.id = some n)
    (hu : n.isUnion = false) (hentered : n ∉ p.entered) : r.placement? n.id = none := by
  rw [h n.id, hn, Option.bind_some, placementOf, if_neg (by simp [hu]), if_neg hentered]

theorem Places.own? (h : p.Places r) {n : Node} (hn : n ∈ p.entered) :
    r.own? n.id = if p.fuses n then none else some (p.vertexOf n.id) := by
  rw [Report.own?, h.entered hn]
  cases p.fuses n <;> rfl

/-- No two nodes have one vertex. -/
theorem vertexOf_inj {n m : Node} (hn : n ∈ p.ownNodes) (hm : m ∈ p.ownNodes)
    (h : p.vertexOf n.id = p.vertexOf m.id) : n = m := by
  have hget := getElem?_vertexOf hn
  rw [h, getElem?_vertexOf hm] at hget
  exact (Option.some.inj hget).symm

/-- The node with a vertex of a given number. -/
theorem exists_own {v : VertexId} (hv : v.index < p.ownNodes.length) :
    ∃ n ∈ p.ownNodes, p.vertexOf n.id = v ∧ p.ownNodes[v.index]? = some n := by
  have hget := List.getElem?_eq_getElem hv
  have hmem := List.mem_of_getElem? hget
  refine ⟨p.ownNodes[v.index], hmem, ?_, hget⟩
  exact congrArg Handle.mk ((vertexOf_index_eq_iff hmem hget).mpr rfl)

/-! ## Section 3: Places of fused tasks -/

theorem nodup_guests (id : NodeId) : ((p.guests p.hostSequence id).map Node.id).Nodup :=
  p.nodup_ids (p.nodup_hostSequence.filter _) fun _ hn =>
    (p.mem_entered.mp (p.mem_hostSequence.mp (List.mem_filter.mp hn).1).1).1

/-- A fused node stands at its place among the guests of its host. -/
theorem getElem?_placeOf {n : Node} (hn : n ∈ p.fusedNodes) :
    (p.guests p.hostSequence (p.host n.id))[(p.placeOf n).position]? = some n := by
  have hmem := p.mem_fusedNodes.mp hn
  have hguest : n ∈ p.guests p.hostSequence (p.host n.id) := by
    simp [guests, p.mem_hostSequence.mpr hmem]
  obtain ⟨m, hm, hid⟩ := getElem?_position hguest
  -- The node that is found there has the same handle, and only one node has it.
  have hm' := p.mem_hostSequence.mp (List.mem_filter.mp (List.mem_of_getElem? hm)).1
  rw [p.eq_of_entered hm'.1 hmem.1 hid] at hm
  exact hm

/-- A guest has the place at which it stands. -/
theorem placeOf_eq {g n : Node} {j : Nat} (h : (p.guests p.hostSequence g.id)[j]? = some n) :
    n ∈ p.fusedNodes ∧ p.placeOf n = ⟨p.vertexOf g.id, j⟩ := by
  obtain ⟨hmem, hhost⟩ := List.mem_filter.mp (List.mem_of_getElem? h)
  have hhost : p.host n.id = g.id := by simpa using hhost
  refine ⟨p.mem_fusedNodes.mpr (p.mem_hostSequence.mp hmem), ?_⟩
  simp only [placeOf, placeIn, hhost, position_eq (nodup_guests g.id) h]

/-- The driver of a fused node is one that records are pushed to. -/
theorem pushDriver_eq {n : Node} (hn : n ∈ p.fusedNodes) :
    n.kind.driver?.bind DriverStrategy.chainDriver? = some (pushDriver n) := by
  obtain ⟨hentered, hf⟩ := p.mem_fusedNodes.mp hn
  obtain ⟨ch, producer, h⟩ := p.exists_fused (p.mem_entered.mp hentered).1 hf
  obtain ⟨driver, comparator, text, hkind, htext⟩ := h.driver
  simp [pushDriver, hkind, Kind.driver?, htext]

theorem fused_sharedVertex (lead n : Node) : (p.sharedVertex policy lead n).config.fused =
    (p.guests p.hostSequence n.id).map (taskIn (p.fullLayout policy)) := by
  rw [config_sharedVertex]
  rfl

/-- A vertex of the answer is that of a node. -/
theorem exists_of_vertex? (lead : Node) {id : VertexId} {v : Vertex}
    (h : (p.answer policy job lead).graph.vertex? id = some v) :
    ∃ n ∈ p.ownNodes, p.vertexOf n.id = id ∧ v = p.sharedVertex policy lead n := by
  rw [JobGraph.vertex?, ← Array.getElem?_toList, vertices_answer, List.getElem?_map] at h
  obtain ⟨n, hn, rfl⟩ := Option.map_eq_some_iff.mp h
  obtain ⟨m, hm, hid, hget⟩ := exists_own (List.getElem?_eq_some_iff.mp hn).1
  obtain rfl : m = n := by simpa [hget] using hn
  exact ⟨m, hm, hid, rfl⟩

/-! ## Section 4: One node for each vertex and each task -/

/-- The vertices of nodes that are reached are those of the ones that are not fused. -/
theorem Places.filterMap_own? (h : p.Places r) {nodes : List Node}
    (hnodes : ∀ n ∈ nodes, n ∈ p.entered) : nodes.filterMap (fun n => r.own? n.id) =
      (nodes.filter fun n => !p.fuses n).map fun n => p.vertexOf n.id := by
  induction nodes with
  | nil => rfl
  | cons n rest ih =>
    have ih := ih fun m hm => hnodes m (List.mem_cons_of_mem _ hm)
    rw [List.filterMap_cons, h.own? (hnodes n (List.mem_cons_self ..)), ih]
    cases hf : p.fuses n <;> simp [hf]

/-- The nodes with a vertex are numbered one after another. -/
theorem map_vertexOf (p : Plan) : (p.ownNodes.map fun n => p.vertexOf n.id) =
    (List.range p.ownNodes.length).map Handle.mk := by
  apply List.ext_getElem?
  intro i
  rw [List.getElem?_map, List.getElem?_map]
  by_cases hi : i < p.ownNodes.length
  · obtain ⟨n, -, hv, hn⟩ := exists_own (v := ⟨i⟩) hi
    have hn : p.ownNodes[i]? = some n := hn
    rw [hn, List.getElem?_range hi]
    simp [hv]
  · rw [List.getElem?_eq_none (by omega), List.getElem?_eq_none (by simpa using hi)]
    rfl

/-- A vertex of the answer is that of one node. -/
theorem existsUnique_vertex (lead : Node) {id : VertexId} {v : Vertex}
    (h : (p.answer policy job lead).graph.vertex? id = some v) : ∃! n, n ∈ p.nodes ∧
      (p.answer policy job lead).report.placement? n.id = some (.vertex id) := by
  have hr : p.Places (p.answer policy job lead).report := places_answer lead
  obtain ⟨n, hown, rfl, -⟩ := exists_of_vertex? lead h
  refine ⟨n, hr.of_own hown, ?_⟩
  rintro m ⟨hm, hplacement⟩
  obtain ⟨hmown, hid⟩ := (hr.vertex_iff (p.node?_of_mem hm) _).mp hplacement
  exact vertexOf_inj hmown hown hid.symm

/-- The task of a fused node stands at its place. -/
theorem task_answer (lead : Node) {n : Node} (hn : n ∈ p.fusedNodes) :
    ∃ v, (p.answer policy job lead).graph.vertex? (p.placeOf n).host = some v ∧
      v.config.fused[(p.placeOf n).position]? = some (taskIn (p.fullLayout policy) n) := by
  obtain ⟨g, hg, hgid⟩ := exists_host_own (p.mem_fusedNodes.mp hn).1
  refine ⟨p.sharedVertex policy lead g, ?_, ?_⟩
  · show (p.answer policy job lead).graph.vertex? (p.vertexOf (p.host n.id)) = _
    rw [← hgid]
    exact vertex?_answer lead hg
  · rw [fused_sharedVertex, hgid, List.getElem?_map, getElem?_placeOf hn]
    rfl

/-- A fused task of the answer is that of one node. -/
theorem existsUnique_task (lead : Node) {host : VertexId} {v : Vertex}
    (h : (p.answer policy job lead).graph.vertex? host = some v) {j : Nat}
    (hj : j < v.config.fused.length) : ∃! n, n ∈ p.nodes ∧
      (p.answer policy job lead).report.placement? n.id = some (.chained ⟨host, j⟩) := by
  have hr : p.Places (p.answer policy job lead).report := places_answer lead
  obtain ⟨g, hg, rfl, rfl⟩ := exists_of_vertex? lead h
  rw [fused_sharedVertex, List.length_map] at hj
  obtain ⟨hfused, hplace⟩ := placeOf_eq (List.getElem?_eq_getElem hj)
  refine ⟨_, hplace ▸ hr.of_fused hfused, ?_⟩
  rintro m ⟨hm, hplacement⟩
  obtain ⟨hmfused, hmplace⟩ := (hr.chained_iff (p.node?_of_mem hm) _).mp hplacement
  -- Two nodes at one place have one host and stand at one position among its guests.
  obtain ⟨k, hk, hkid⟩ := exists_host_own (p.mem_fusedNodes.mp hmfused).1
  have hhost : p.vertexOf g.id = p.vertexOf k.id := hkid ▸ congrArg Place.host hmplace
  have hat := getElem?_placeOf hmfused
  rw [← hkid, ← vertexOf_inj hg hk hhost, ← hmplace] at hat
  exact (List.getElem_eq_iff hj).mpr hat |>.symm

/-! ## Section 5: Configurations of nodes -/

/-- The configuration of a node with a vertex is that of the vertex. -/
theorem config?_own (lead : Node) {n : Node} (hn : n ∈ p.ownNodes) :
    (p.answer policy job lead).config? n.id = some (p.sharedVertex policy lead n).config := by
  have hr : p.Places (p.answer policy job lead).report := places_answer lead
  simp only [Compiler.Result.config?, (hr.of_own hn).2, vertex?_answer lead hn, Option.map_some]

/-- The configuration of a fused node is that of its task. -/
theorem config?_fused (lead : Node) {n : Node} (hn : n ∈ p.fusedNodes) :
    (p.answer policy job lead).config? n.id = some (taskIn (p.fullLayout policy) n).config := by
  have hr : p.Places (p.answer policy job lead).report := places_answer lead
  obtain ⟨v, hv, ht⟩ : ∃ v, (p.answer policy job lead).graph.vertex? (p.placeOf n).host = some v ∧
      v.config.fused[(p.placeOf n).position]? = some (taskIn (p.fullLayout policy) n) :=
    task_answer lead hn
  simp only [Compiler.Result.config?, (hr.of_fused hn).2, hv, Option.bind_some, ht, Option.map_some]

/-- The settings of a node that is reached are those of the layout. -/
theorem config?_answer (policy : SpillPolicy) (job : JobId) (lead : Node) {n : Node}
    (hn : n ∈ p.entered) : ∃ t, (p.answer policy job lead).config? n.id = some t ∧
      t.toTaskSettings = ((p.fullLayout policy).config n).toTaskSettings := by
  cases hf : p.fuses n with
  | false =>
    refine ⟨_, config?_own lead (p.mem_ownNodes.mpr ⟨hn, hf⟩), ?_⟩
    rw [config_sharedVertex]
    rfl
  | true => exact ⟨_, config?_fused lead (p.mem_fusedNodes.mpr ⟨hn, hf⟩), rfl⟩

/-- Nothing else has a configuration. -/
theorem config?_answer_none (lead : Node) {id : NodeId} (hid : ∀ n ∈ p.entered, n.id ≠ id) :
    (p.answer policy job lead).config? id = none := by
  have hr : p.Places (p.answer policy job lead).report := places_answer lead
  have hplace : (p.answer policy job lead).report.placement? id = some .spliced ∨
      (p.answer policy job lead).report.placement? id = none := by
    cases hn : p.node? id with
    | none => exact Or.inr (by rw [hr id, hn]; rfl)
    | some n =>
      obtain rfl := p.id_eq hn
      cases hu : n.isUnion with
      | true => exact Or.inl (hr.union hn hu)
      | false => exact Or.inr (hr.unreached hn hu fun hentered => hid n hentered rfl)
  rcases hplace with hplace | hplace <;> simp only [Compiler.Result.config?, hplace]

/-! ## Section 6: Coverage of a compilation -/

/-- A compilation that succeeds gives every node that is reached one place, and every vertex and
every fused task one node. -/
theorem placements_cover {c : Compiler} {r : Compiler.Result} (h : c.compile job p = .ok r) :
    p.Covers r := by
  obtain ⟨lead, -, -, rfl⟩ := answer_of_ok h
  have hr : p.Places (p.answer c.policy job lead).report := places_answer lead
  have hnode : ∀ {n : Node}, n ∈ p.nodes → p.node? n.id = some n := p.node?_of_mem
  refine {
    reached := fun n hn hu hreach => ?_
    union := fun n hn hu => hr.union (hnode hn) hu
    unreached := fun n hn hu hreach => hr.unreached (hnode hn) hu ?_
    vertex := fun n hn v hv => ?_
    vertex_owner := fun v hv => ?_
    vertex_order := ?_
    task := fun n hn place hplace => ?_
    task_owner := fun host v hv j hj => existsUnique_task lead hv hj
    task_flat := fun host v hv t ht => ?_ }
  · have hentered := p.mem_entered.mpr ⟨hnode hn, hu, hreach⟩
    rw [hr.entered hentered]
    cases p.fuses n
    · exact Or.inl ⟨_, rfl⟩
    · exact Or.inr ⟨_, rfl⟩
  · intro hentered
    exact hreach (p.mem_entered.mp hentered).2.2
  · obtain ⟨hown, rfl⟩ := (hr.vertex_iff (hnode hn) v).mp hv
    rw [vertex?_answer lead hown]
    rfl
  · obtain ⟨vertex, hvertex⟩ := Option.isSome_iff_exists.mp hv
    exact existsUnique_vertex lead hvertex
  · have hsize : (p.answer c.policy job lead).graph.vertices.size = p.ownNodes.length := by
      rw [← Array.length_toList, vertices_answer, List.length_map]
    have hown := hr.filterMap_own? fun _ hn => hn
    rw [visits_eq, hown, hsize]
    exact map_vertexOf p
  · obtain ⟨hfused, rfl⟩ := (hr.chained_iff (hnode hn) place).mp hplace
    obtain ⟨v, hv, ht⟩ := task_answer lead hfused
    exact ⟨v, _, hv, ht, rfl, pushDriver_eq hfused⟩
  · obtain ⟨g, -, -, rfl⟩ := exists_of_vertex? lead hv
    rw [fused_sharedVertex] at ht
    obtain ⟨n, -, rfl⟩ := List.mem_map.mp ht
    exact fused_fullLayout n

/-- In the plan that joins two sources every node has its place. -/
theorem wordCount_covered : ∃ r, Compiler.standard.compile .zero wordCount = .ok r ∧
    wordCount.Covers r := by
  obtain ⟨r, hr⟩ := wordCount_compiles .standard .zero
  exact ⟨r, hr, placements_cover hr⟩

end Plan

end Dataflow
