import Dataflow.Proofs.Journal
import Dataflow.Proofs.Runs

/-! # Layouts

    A layout says what has been built, by node: which nodes have been made, the
    configuration and the wires of each, and which fused nodes have a host. A
    state holds a layout when its vertices, its chains and its tables are those
    of the layout, at the numbers that the schedule gives them.

    Every step on a state is one on the layout that it holds.
-/

namespace Dataflow

namespace Plan

open Lowering

variable (p : Plan)

/-! ## Section 1: Nodes by number -/

theorem nodup_ids_filter (f : Node → Bool) : ((p.entered.filter f).map Node.id).Nodup :=
  p.nodup_ids (p.nodup_entered.filter f) fun _ hn => (p.mem_entered.mp (List.mem_filter.mp hn).1).1

/-- The number of a node in a list that others follow is its position among all. -/
theorem getElem?_of_begun {made : List Node} (hmade : made <+: p.entered) (f : Node → Bool)
    {n : Node} (hn : n ∈ made) (hf : f n = true) :
    (made.filter f)[position (p.entered.filter f) n.id]? = some n := by
  obtain ⟨i, hi⟩ := List.mem_iff_getElem?.mp (List.mem_filter.mpr ⟨hn, hf⟩)
  -- What is made later comes behind, so a node stands where it will stand in the end.
  have hi' : (p.entered.filter f)[i]? = some n := by
    obtain ⟨rest, hrest⟩ := hmade.filter f
    rw [← hrest, List.getElem?_append_left (List.getElem?_eq_some_iff.mp hi).1, hi]
  rw [position_eq (p.nodup_ids_filter f) hi', hi]

/-! ## Section 2: Layouts -/

/-- What has been built, by node. -/
structure Layout where
  /-- The nodes that have been made, in order. -/
  made : List Node
  /-- The configuration of a node, in its vertex or its chain. -/
  config : Node → TaskConfig
  /-- The wires that leave from the vertex of a node. -/
  wires : Node → List Wire
  /-- The fused nodes with a host, in the order in which it became known. -/
  resolved : List Node

/-- The layout after some entries. -/
def layoutAfter (policy : SpillPolicy) (j : List Entry) : Layout where
  made := madeNodes j
  config := p.configAfter policy j
  wires n := p.wiresAfter j n.id
  resolved := hostedNodes j

/-- The vertex of a node of a layout. -/
def vertexIn (l : Layout) (n : Node) : Vertex :=
  { id := p.vertexOf n.id, name := n.name, kind := vertexKind n, taskClass := taskClass n
    parallelism := n.parallelism
    subtasksPerInstance := n.subtasksPerInstance.filter fun k => 1 ≤ k
    config := l.config n
    wires := l.wires n }

/-- The chain of a fused node of a layout. -/
def chainIn (l : Layout) (n : Node) : Chain :=
  { driver := pushDriver n, config := l.config n, name := n.name
    host := if n ∈ l.resolved then some (p.vertexOf (p.host n.id)) else none }

/-- What a node of a layout has become. -/
def outcomeOf (made : List Node) (id : NodeId) : Option Outcome :=
  (made.find? fun n => n.id = id).map fun n =>
    if p.fuses n then .fused (p.chainOf id) else .vertex (p.vertexOf id)

/-- A state holds a layout. -/
structure Shows (job : JobId) (l : Layout) (s : State) : Prop where
  /-- The nodes are made in the order of the walk. -/
  begun : l.made <+: p.entered
  /-- There is a place for what becomes of every node. -/
  size : s.outcomes.size = p.nodes.size
  /-- What became of each node. -/
  outcome : ∀ id, s.outcome? id = p.outcomeOf l.made id
  /-- The vertices are those of the nodes that are not fused, in order. -/
  vertex : ∀ id, s.graph.vertex? id =
    ((l.made.filter fun n => !p.fuses n)[id.index]?).map (p.vertexIn l)
  /-- The chains are those of the fused nodes, in order. -/
  chain : ∀ id, s.chain? id = ((l.made.filter p.fuses)[id.index]?).map (p.chainIn l)
  /-- The sequence of the chains with a host. -/
  resolved : s.resolved.toList = l.resolved.map fun n => p.chainOf n.id
  /-- The anchor is the first vertex of the greatest parallelism. -/
  anchor : s.anchor = (leading (l.made.filter fun n => !p.fuses n)).map fun n => p.vertexOf n.id
  /-- The identifier of the graph. -/
  job : s.graph.id = job
  /-- The name of the graph. -/
  name : s.graph.name = p.jobName
  /-- The settings of the graph. -/
  config : s.graph.config = p.config

variable {p} {job : JobId} {l : Layout} {s : State}

/-- Layouts that agree on the nodes that are made are held by the same states. -/
theorem Shows.congr {l' : Layout} (h : p.Shows job l s) (hmade : l'.made = l.made)
    (hconfig : ∀ n ∈ l.made, l'.config n = l.config n)
    (hwires : ∀ n ∈ l.made, p.fuses n = false → l'.wires n = l.wires n)
    (hresolved : l'.resolved = l.resolved) : p.Shows job l' s where
  begun := hmade ▸ h.begun
  size := h.size
  outcome := hmade ▸ h.outcome
  vertex id := by
    rw [h.vertex id, hmade]
    cases hn : (l.made.filter fun n => !p.fuses n)[id.index]? with
    | none => rfl
    | some n =>
      obtain ⟨hmem, hf⟩ := List.mem_filter.mp (List.mem_of_getElem? hn)
      simp [vertexIn, hconfig n hmem, hwires n hmem (by simpa using hf)]
  chain id := by
    rw [h.chain id, hmade]
    cases hn : (l.made.filter p.fuses)[id.index]? with
    | none => rfl
    | some n =>
      obtain ⟨hmem, _⟩ := List.mem_filter.mp (List.mem_of_getElem? hn)
      simp [chainIn, hconfig n hmem, hresolved]
  resolved := hresolved ▸ h.resolved
  anchor := hmade ▸ h.anchor
  job := h.job
  name := h.name
  config := h.config

theorem Shows.report (h : p.Shows job l s) (e : Event) : p.Shows job l (s.report e) :=
  { h with }

/-- The node at a number has this number. -/
theorem Shows.index_eq_iff (h : p.Shows job l s) (f : Node → Bool) {i : Nat} {n m : Node}
    (hm : (l.made.filter f)[i]? = some m) (hn : n ∈ l.made) (hf : f n = true) :
    position (p.entered.filter f) n.id = i ↔ m.id = n.id := by
  have hget := p.getElem?_of_begun h.begun f hn hf
  have hnodup : ((l.made.filter f).map Node.id).Nodup :=
    ((h.begun.filter f).sublist.map _).nodup (p.nodup_ids_filter f)
  constructor
  · rintro rfl
    rw [hget] at hm
    exact congrArg Node.id (Option.some.inj hm).symm
  · intro hid
    exact index_injective hnodup hget hm hid.symm

theorem Shows.vertex?_eq (h : p.Shows job l s) {n : Node} (hn : n ∈ l.made)
    (hf : p.fuses n = false) : s.graph.vertex? (p.vertexOf n.id) = some (p.vertexIn l n) := by
  rw [h.vertex]
  have : (l.made.filter fun n => !p.fuses n)[(p.vertexOf n.id).index]? = some n :=
    p.getElem?_of_begun h.begun (fun n => !p.fuses n) hn (by simp [hf])
  rw [this]
  rfl

theorem Shows.chain?_eq (h : p.Shows job l s) {n : Node} (hn : n ∈ l.made)
    (hf : p.fuses n = true) : s.chain? (p.chainOf n.id) = some (p.chainIn l n) := by
  rw [h.chain]
  have : (l.made.filter p.fuses)[(p.chainOf n.id).index]? = some n :=
    p.getElem?_of_begun h.begun p.fuses hn hf
  rw [this]
  rfl

theorem Shows.missing?_eq (h : p.Shows job l s) {n : Node} (hn : n ∈ l.made)
    (hf : p.fuses n = false) : s.graph.missing? (p.vertexOf n.id) = none :=
  JobGraph.missing?_eq_none_iff.mpr (Array.getElem?_eq_some_iff.mp (h.vertex?_eq hn hf)).1

theorem Shows.outcome?_eq (h : p.Shows job l s) {n : Node} (hn : n ∈ l.made) :
    s.outcome? n.id = some
      (if p.fuses n then .fused (p.chainOf n.id) else .vertex (p.vertexOf n.id)) := by
  rw [h.outcome, outcomeOf]
  cases hm : l.made.find? fun m => decide (m.id = n.id) with
  | none => simpa using List.find?_eq_none.mp hm n hn
  | some m =>
    have hmem := h.begun.subset (List.mem_of_find?_eq_some hm)
    have hid : m.id = n.id := by simpa using List.find?_some hm
    obtain rfl : m = n := p.eq_of_entered hmem (h.begun.subset hn) hid
    rfl

/-- Nothing has become of a node that has not been made. -/
theorem Shows.outcome?_eq_none (h : p.Shows job l s) {n : Node} (hn : p.node? n.id = some n)
    (hnew : n ∉ l.made) : s.outcome? n.id = none := by
  rw [h.outcome, outcomeOf, Option.map_eq_none_iff]
  refine List.find?_eq_none.mpr fun m hm hid => hnew ?_
  have hmnode := (p.mem_entered.mp (h.begun.subset hm)).1
  exact p.node?_inj hmnode hn (by simpa using hid) ▸ hm

/-- Two nodes that are made and have one handle are one node. -/
theorem Shows.eq_of_id_eq (h : p.Shows job l s) {n m : Node} (hn : n ∈ l.made) (hm : m ∈ l.made)
    (hid : n.id = m.id) : n = m := by
  exact p.eq_of_entered (h.begun.subset hn) (h.begun.subset hm) hid

/-! ## Section 3: Steps on layouts -/

/-- The layout with the configuration of a node passed through `f`. -/
def Layout.updateConfig (l : Layout) (n : Node) (f : TaskConfig → TaskConfig) : Layout :=
  { l with config := fun m => if m = n then f (l.config m) else l.config m }

/-- The layout with one more wire at the vertex of a node. -/
def Layout.addWire (l : Layout) (n : Node) (wire : Wire) : Layout :=
  { l with wires := fun m => if m = n then l.wires m ++ [wire] else l.wires m }

/-- A change to the vertex of a node is one to the layout, if that is how its vertices differ. -/
theorem Shows.updateGraph (h : p.Shows job l s) {n : Node} (hn : n ∈ l.made)
    (hf : p.fuses n = false) {f : Vertex → Vertex} {l' : Layout} (hmade : l'.made = l.made)
    (hresolved : l'.resolved = l.resolved)
    (hvertex : ∀ m ∈ l.made, p.vertexIn l' m = if m = n then f (p.vertexIn l m) else p.vertexIn l m)
    (hconfig : ∀ m ∈ l.made, p.fuses m = true → l'.config m = l.config m) :
    p.Shows job l' { s with graph := s.graph.updateVertex (p.vertexOf n.id) f } where
  begun := hmade ▸ h.begun
  size := h.size
  outcome := hmade ▸ h.outcome
  vertex id := by
    rw [JobGraph.vertex?_updateVertex, h.vertex, hmade]
    cases hm : (l.made.filter fun n => !p.fuses n)[id.index]? with
    | none => simp
    | some m =>
      have hmem := (List.mem_filter.mp (List.mem_of_getElem? hm)).1
      have hiff := h.index_eq_iff (fun n => !p.fuses n) hm hn (by simp [hf])
      -- The vertex that changes is the one with the number of the node, and no other has it.
      have hid : p.vertexOf n.id = id ↔ m = n := by
        constructor
        · rintro rfl
          exact h.eq_of_id_eq hmem hn (hiff.mp rfl)
        · rintro rfl
          exact congrArg Handle.mk (hiff.mpr rfl)
      simp only [Option.map_some, hvertex m hmem, hid]
      split <;> rfl
  chain id := by
    rw [hmade]
    refine (h.chain id).trans ?_
    cases hm : (l.made.filter p.fuses)[id.index]? with
    | none => rfl
    | some m =>
      obtain ⟨hmem, hmf⟩ := List.mem_filter.mp (List.mem_of_getElem? hm)
      simp [chainIn, hconfig m hmem hmf, hresolved]
  resolved := hresolved ▸ h.resolved
  anchor := hmade ▸ h.anchor
  job := h.job
  name := h.name
  config := h.config

theorem Shows.updateConfig (h : p.Shows job l s) {n : Node} (hn : n ∈ l.made)
    (hf : p.fuses n = false) (f : TaskConfig → TaskConfig) :
    ∃ s', Step.updateConfig (p.vertexOf n.id) f s = .ok () s' ∧
      p.Shows job (l.updateConfig n f) s' := by
  refine ⟨_, ?_, h.updateGraph (f := fun v => { v with config := f v.config }) hn hf rfl rfl
    (fun m _ => ?_) fun m _ hmf => ?_⟩
  · simp only [Step.updateConfig, Step.updateVertex, h.missing?_eq hn hf]
  · simp only [vertexIn, Layout.updateConfig]
    split <;> rfl
  · have : m ≠ n := by
      rintro rfl
      simp [hf] at hmf
    simp [Layout.updateConfig, this]

theorem Shows.connect (h : p.Shows job l s) {n m : Node} (hn : n ∈ l.made)
    (hnf : p.fuses n = false) (hm : m ∈ l.made) (hmf : p.fuses m = false) (hne : m.id ≠ n.id)
    {wire : Wire} (hwire : wire.target = p.vertexOf n.id) :
    ∃ s', Step.connect (p.vertexOf m.id) wire s = .ok () s' ∧ p.Shows job (l.addWire m wire) s' := by
  refine ⟨_, ?_, h.updateGraph (f := fun v => { v with wires := v.wires ++ [wire] }) hm hmf rfl rfl
    (fun k _ => ?_) fun k _ _ => rfl⟩
  · -- The ends are different nodes and have different numbers, so the wire is no loop.
    have hloop : p.vertexOf m.id ≠ p.vertexOf n.id := by
      intro heq
      apply hne
      have hget := p.getElem?_of_begun h.begun (fun n => !p.fuses n) hm (by simp [hmf])
      exact ((h.index_eq_iff (fun n => !p.fuses n) hget hn (by simp [hnf])).mp
        (congrArg Handle.index heq).symm)
    have : s.graph.unconnectable? (p.vertexOf m.id) wire.target = none := by
      rw [hwire, JobGraph.unconnectable?, if_neg hloop, h.missing?_eq hn hnf, h.missing?_eq hm hmf]
      rfl
    simp only [Step.connect, this]
    rfl
  · simp only [vertexIn, Layout.addWire]
    split <;> rfl

/-- A change to the chain of a node is one to the layout, if that is how its chains differ. -/
theorem Shows.updateChains (h : p.Shows job l s) {n : Node} (hn : n ∈ l.made)
    (hf : p.fuses n = true) {f : Chain → Chain} {resolved : Array ChainId} {l' : Layout}
    (hmade : l'.made = l.made)
    (hvertex : ∀ m ∈ l.made, p.fuses m = false → p.vertexIn l' m = p.vertexIn l m)
    (hchain : ∀ m ∈ l.made, p.chainIn l' m = if m = n then f (p.chainIn l m) else p.chainIn l m)
    (hresolved : resolved.toList = l'.resolved.map fun n => p.chainOf n.id) :
    p.Shows job l' { s with chains := s.chains.modify (p.chainOf n.id).index f, resolved } where
  begun := hmade ▸ h.begun
  size := h.size
  outcome := hmade ▸ h.outcome
  vertex id := by
    rw [hmade]
    refine (h.vertex id).trans ?_
    cases hm : (l.made.filter fun n => !p.fuses n)[id.index]? with
    | none => rfl
    | some m =>
      obtain ⟨hmem, hmf⟩ := List.mem_filter.mp (List.mem_of_getElem? hm)
      simp [hvertex m hmem (by simpa using hmf)]
  chain id := by
    have hold := h.chain id
    simp only [State.chain?] at hold ⊢
    rw [Array.getElem?_modify, hold, hmade]
    cases hm : (l.made.filter p.fuses)[id.index]? with
    | none => simp
    | some m =>
      have hmem := (List.mem_filter.mp (List.mem_of_getElem? hm)).1
      -- As for vertices: the chain that changes is that of the node alone.
      have hiff := h.index_eq_iff p.fuses hm hn hf
      have hid : (p.chainOf n.id).index = id.index ↔ m = n :=
        ⟨fun hi => h.eq_of_id_eq hmem hn (hiff.mp hi), fun hmn => hiff.mpr (congrArg Node.id hmn)⟩
      simp only [Option.map_some, hchain m hmem, hid]
      split <;> rfl
  resolved := hresolved
  anchor := hmade ▸ h.anchor
  job := h.job
  name := h.name
  config := h.config

/-- The layout in which a fused node has its host, with its configuration passed through `f`. -/
def Layout.resolve (l : Layout) (n : Node) (f : TaskConfig → TaskConfig) : Layout :=
  { l.updateConfig n f with resolved := l.resolved ++ [n] }

/-- The chain of a node gets its host and becomes the last one that has one. -/
theorem Shows.resolve (h : p.Shows job l s) {n : Node} (hn : n ∈ l.made) (hf : p.fuses n = true)
    (f : TaskConfig → TaskConfig) :
    p.Shows job (l.resolve n f) { s with
      chains := s.chains.modify (p.chainOf n.id).index fun chain =>
        { chain with host := some (p.vertexOf (p.host n.id)), config := f chain.config }
      resolved := s.resolved.push (p.chainOf n.id) } := by
  -- No vertex changes, the chain of the node gets its host, and the sequence grows by it.
  refine h.updateChains hn hf rfl (fun m _ hmf => ?_) (fun m _ => ?_) ?_
  · have hne : m ≠ n := by
      rintro rfl
      simp [hf] at hmf
    simp only [vertexIn, Layout.resolve, Layout.updateConfig, if_neg hne]
  · by_cases hmn : m = n
    · subst hmn
      simp [chainIn, Layout.resolve, Layout.updateConfig]
    · simp only [chainIn, Layout.resolve, Layout.updateConfig, List.mem_append,
        List.mem_singleton, hmn, or_false, if_false]
  · simp [Layout.resolve, h.resolved]

/-- The configuration that belongs to a node is that of its vertex or its chain. -/
theorem Shows.updateOwner (h : p.Shows job l s) {n : Node} (hn : n ∈ l.made)
    (f : TaskConfig → TaskConfig) :
    ∃ s', Step.updateOwner (if p.fuses n then .chain (p.chainOf n.id) else .vertex (p.vertexOf n.id))
        f s = .ok () s' ∧ p.Shows job (l.updateConfig n f) s' := by
  cases hf : p.fuses n with
  | false => simpa [Step.updateOwner] using h.updateConfig hn hf f
  | true =>
    refine ⟨_, ?_, h.updateChains (f := fun chain => { chain with config := f chain.config }) hn hf
      rfl (fun m _ hmf => ?_) (fun m _ => ?_) h.resolved⟩
    · have hlt := (Array.getElem?_eq_some_iff.mp (h.chain?_eq hn hf)).1
      simp only [Step.updateOwner, Step.updateChain, hlt, if_true]
    · have : m ≠ n := by
        rintro rfl
        simp [hf] at hmf
      simp [vertexIn, Layout.updateConfig, this]
    · simp only [chainIn, Layout.updateConfig]
      split <;> rfl

theorem Shows.chain_run (h : p.Shows job l s) {n : Node} (hn : n ∈ l.made)
    (hf : p.fuses n = true) : Step.chain (p.chainOf n.id) s = .ok (p.chainIn l n) s := by
  simp only [Step.chain, h.chain?_eq hn hf]

/-- The producing end for a node that is made, and hosted if it is fused. -/
theorem Shows.producer (h : p.Shows job l s) {n : Node} (hn : n ∈ l.made)
    (hhost : p.fuses n = true → n ∈ l.resolved) :
    Step.producer n.id s = .ok {
      vertex := p.vertexOf (p.host n.id)
      owner := if p.fuses n then .chain (p.chainOf n.id) else .vertex (p.vertexOf n.id) } s := by
  have hid := (p.mem_entered.mp (h.begun.subset hn)).1
  have hout := h.outcome?_eq hn
  cases hf : p.fuses n with
  | false =>
    rw [hf, if_neg (by simp)] at hout
    simp only [Step.producer, bind, EStateM.bind, get_apply, hout]
    rw [p.host_of_not_fuses hid hf]
    rfl
  | true =>
    rw [hf, if_pos rfl] at hout
    simp only [Step.producer, bind, EStateM.bind, get_apply, hout,
      h.chain_run hn hf, chainIn, if_pos (hhost hf)]
    rfl

end Plan

end Dataflow
