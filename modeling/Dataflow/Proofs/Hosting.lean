import Dataflow.Proofs.Make

/-! # Appending chains to their hosts

    The chains are appended in the order in which their hosts became known. A
    vertex ends with the tasks of all its guests in this order, and the place of
    a fused node is its position among them.

    Main statement:
    - `appendFrom_run`: all chains are appended, each once and to its host
-/

namespace Dataflow

namespace Plan

open Lowering

variable (p : Plan)

/-! ## Section 1: Guests -/

/-- The fused nodes in the order in which their hosts become known. -/
def hostSequence : List Node := p.left.filter p.fuses

/-- The nodes of a sequence that a node hosts. -/
def guests (sequence : List Node) (id : NodeId) : List Node :=
  sequence.filter fun n => p.host n.id = id

/-- The place of a fused node at its host after some nodes have been appended. -/
def placeIn (sequence : List Node) (n : Node) : Place :=
  ⟨p.vertexOf (p.host n.id), position (p.guests sequence (p.host n.id)) n.id⟩

/-- The fused task of a node of a layout. -/
def taskIn (l : Layout) (n : Node) : FusedTask := ⟨pushDriver n, l.config n, n.name⟩

/-- The vertex of a node of a layout with the fused tasks of its guests. -/
def hostIn (l : Layout) (sequence : List Node) (n : Node) : Vertex :=
  let v := p.vertexIn l n
  { v with config := { v.config with fused := (p.guests sequence n.id).map (taskIn l) } }

theorem guests_concat (sequence : List Node) (n : Node) (id : NodeId) :
    p.guests (sequence ++ [n]) id =
      if p.host n.id = id then p.guests sequence id ++ [n] else p.guests sequence id := by
  simp only [guests, List.filter_append, List.filter_cons, List.filter_nil]
  by_cases h : p.host n.id = id <;> simp [h]

theorem mem_fusedNodes {n : Node} : n ∈ p.fusedNodes ↔ n ∈ p.entered ∧ p.fuses n = true :=
  List.mem_filter

theorem mem_ownNodes {n : Node} : n ∈ p.ownNodes ↔ n ∈ p.entered ∧ p.fuses n = false := by
  simp [ownNodes, List.mem_filter]

theorem node?_of_own {n : Node} (hn : n ∈ p.ownNodes) : p.node? n.id = some n :=
  (p.mem_entered.mp (p.mem_ownNodes.mp hn).1).1

theorem node?_of_fused {n : Node} (hn : n ∈ p.fusedNodes) : p.node? n.id = some n :=
  (p.mem_entered.mp (p.mem_fusedNodes.mp hn).1).1

/-- A node with a vertex is no fused node. -/
theorem id_ne_of_fused_of_own {n g : Node} (hn : n ∈ p.fusedNodes) (hg : g ∈ p.ownNodes) :
    n.id ≠ g.id := by
  obtain ⟨hentered, hf⟩ := p.mem_fusedNodes.mp hn
  obtain ⟨hgentered, hgf⟩ := p.mem_ownNodes.mp hg
  intro hid
  rw [p.eq_of_entered hentered hgentered hid, hgf] at hf
  simp at hf

/-- A sink of the walk has a vertex, if it is one by its kind. -/
theorem sink_mem_ownNodes {n : Node} (hn : p.node? n.id = some n) (hkind : n.kind = .sink)
    (hsink : n.id ∈ p.sinks) : n ∈ p.ownNodes := by
  have hu : n.isUnion = false := by simp [Node.isUnion, Kind.isUnion, hkind]
  exact p.mem_ownNodes.mpr ⟨p.mem_entered.mpr ⟨hn, hu, .sink hsink⟩, by simp [fuses, hkind]⟩

theorem mem_hostSequence {n : Node} : n ∈ p.hostSequence ↔ n ∈ p.entered ∧ p.fuses n = true := by
  rw [hostSequence, List.mem_filter, mem_left, mem_entered]

theorem nodup_hostSequence : p.hostSequence.Nodup := p.nodup_left.filter _

theorem position_append_of_mem {l l' : List Node} {n : Node} (hn : n ∈ l) :
    position (l ++ l') n.id = position l n.id := by
  have hlt := position_lt hn
  unfold position at hlt ⊢
  rw [List.findIdx_append, if_pos hlt]

theorem position_concat_self {l : List Node} {n : Node} (hn : ∀ m ∈ l, m.id ≠ n.id) :
    position (l ++ [n]) n.id = l.length := by
  have hge : l.findIdx (fun m => decide (m.id = n.id)) = l.length :=
    List.findIdx_eq_length.mpr fun m hm => by simpa using hn m hm
  unfold position
  rw [List.findIdx_append, hge]
  simp

/-- A node that is placed keeps its place. -/
theorem placeIn_concat_of_mem {sequence : List Node} {n m : Node} (hn : n ∈ sequence) :
    p.placeIn (sequence ++ [m]) n = p.placeIn sequence n := by
  have hguest : n ∈ p.guests sequence (p.host n.id) := by simp [guests, hn]
  simp only [placeIn, guests_concat]
  split
  · rw [position_append_of_mem hguest]
  · rfl

/-- A node that is placed next comes behind the others. -/
theorem placeIn_concat_self {sequence : List Node} {n : Node}
    (hn : ∀ m ∈ sequence, m.id ≠ n.id) : p.placeIn (sequence ++ [n]) n =
      ⟨p.vertexOf (p.host n.id), (p.guests sequence (p.host n.id)).length⟩ := by
  simp only [placeIn, guests_concat, if_true]
  have hnew : ∀ m ∈ p.guests sequence (p.host n.id), m.id ≠ n.id :=
    fun m hm => hn m (List.mem_filter.mp hm).1
  rw [position_concat_self hnew]

/-! ## Section 2: Chains in sequence -/

/-- A graph and two tables hold a layout with some of its fused nodes appended to their hosts. -/
structure Hosts (job : JobId) (l : Layout) (sequence : List Node) (graph : JobGraph)
    (pending : Array (Option Chain)) (placed : Array (Option Place)) : Prop where
  /-- The vertices have the tasks of their guests. -/
  vertex : ∀ id, graph.vertex? id = (p.ownNodes[id.index]?).map (p.hostIn l sequence)
  /-- The chains that have not been appended are pending. -/
  pending : ∀ i : Nat, pending[i]? =
    (p.fusedNodes[i]?).map fun n => if n ∈ sequence then none else some (p.chainIn l n)
  /-- The chains that have been appended are placed. -/
  placed : ∀ i : Nat, placed[i]? =
    (p.fusedNodes[i]?).map fun n => if n ∈ sequence then some (p.placeIn sequence n) else none
  /-- The identifier of the graph. -/
  job : graph.id = job
  /-- The name of the graph. -/
  name : graph.name = p.jobName
  /-- The settings of the graph. -/
  config : graph.config = p.config

variable {p} {job : JobId} {l : Layout} {sequence : List Node} {graph : JobGraph}
  {pending : Array (Option Chain)} {placed : Array (Option Place)}

theorem getElem?_vertexOf {n : Node} (hn : n ∈ p.ownNodes) :
    p.ownNodes[(p.vertexOf n.id).index]? = some n := by
  obtain ⟨hmem, hf⟩ := p.mem_ownNodes.mp hn
  exact p.getElem?_of_begun (List.prefix_refl _) (fun n => !p.fuses n) hmem (by simp [hf])

theorem getElem?_chainOf {n : Node} (hn : n ∈ p.fusedNodes) :
    p.fusedNodes[(p.chainOf n.id).index]? = some n := by
  obtain ⟨hmem, hf⟩ := p.mem_fusedNodes.mp hn
  exact p.getElem?_of_begun (List.prefix_refl _) p.fuses hmem hf

/-- The number of a node at a position is this position exactly for the node there. -/
theorem chainOf_index_eq_iff {n m : Node} {i : Nat} (hn : n ∈ p.fusedNodes)
    (hm : p.fusedNodes[i]? = some m) : (p.chainOf n.id).index = i ↔ m = n := by
  have hget := getElem?_chainOf hn
  constructor
  · rintro rfl
    simpa [hget] using hm.symm
  · rintro rfl
    exact index_injective (p.nodup_ids_filter p.fuses) hget hm rfl

/-- Different fused nodes have different chains. -/
theorem chainOf_inj {n m : Node} (hn : n ∈ p.fusedNodes) (hm : m ∈ p.fusedNodes)
    (h : p.chainOf n.id = p.chainOf m.id) : n = m := by
  have hget := getElem?_chainOf hn
  rw [h, getElem?_chainOf hm] at hget
  exact (Option.some.inj hget).symm

theorem vertexOf_index_eq_iff {n m : Node} {i : Nat} (hn : n ∈ p.ownNodes)
    (hm : p.ownNodes[i]? = some m) : (p.vertexOf n.id).index = i ↔ m = n := by
  have hget := getElem?_vertexOf hn
  constructor
  · rintro rfl
    simpa [hget] using hm.symm
  · rintro rfl
    exact index_injective (p.nodup_ids_filter fun n => !p.fuses n) hget hm rfl

/-- The host of a fused node that is entered is a node with a vertex. -/
theorem exists_host_own {n : Node} (hn : n ∈ p.entered) :
    ∃ g ∈ p.ownNodes, g.id = p.host n.id := by
  obtain ⟨hnode, hu, hreach⟩ := p.mem_entered.mp hn
  obtain ⟨g, hgid, hgf, hgmem⟩ := p.exists_host hnode hu
  obtain ⟨hg, hgu⟩ := p.node_of_mem_callbacks hgmem
  exact ⟨g, p.mem_ownNodes.mpr ⟨p.mem_entered.mpr ⟨hg, hgu, hreach.of_mem_callbacks hgmem⟩, hgf⟩,
    hgid⟩

/-- An array with an element for each fused node, after the one for a node has been replaced. -/
theorem getElem?_set_chainOf {α : Type} {a : Array α} {f f' : Node → α} {x : α}
    (h : ∀ i : Nat, a[i]? = (p.fusedNodes[i]?).map f) {n : Node} (hn : n ∈ p.fusedNodes)
    (hx : f' n = x) (hf : ∀ m, m ≠ n → f' m = f m) (i : Nat) :
    (a.setIfInBounds (p.chainOf n.id).index x)[i]? = (p.fusedNodes[i]?).map f' := by
  have hsize : a.size = p.fusedNodes.length := size_eq_of_getElem? h
  have hlt := (List.getElem?_eq_some_iff.mp (getElem?_chainOf hn)).1
  rw [Array.getElem?_setIfInBounds, h i]
  by_cases hi : (p.chainOf n.id).index = i
  · subst hi
    rw [if_pos rfl, if_pos (hsize ▸ hlt), getElem?_chainOf hn, Option.map_some, hx]
  · rw [if_neg hi]
    cases hm : p.fusedNodes[i]? with
    | none => rfl
    | some m =>
      have hne : m ≠ n := fun heq => hi ((chainOf_index_eq_iff hn hm).mpr heq)
      rw [Option.map_some, Option.map_some, hf m hne]

/-- The host of a node has one more task, and no other vertex changes. -/
theorem vertex?_fuse (h : ∀ id, graph.vertex? id = (p.ownNodes[id.index]?).map (p.hostIn l sequence))
    {n : Node} (hn : n ∈ p.entered) (id : VertexId) :
    (graph.updateVertex (p.vertexOf (p.host n.id)) fun v =>
      { v with config := v.config.fuse (taskIn l n) }).vertex? id =
        (p.ownNodes[id.index]?).map (p.hostIn l (sequence ++ [n])) := by
  obtain ⟨g, hg, hgid⟩ := exists_host_own hn
  rw [JobGraph.vertex?_updateVertex, h id, ← hgid]
  cases hm : p.ownNodes[id.index]? with
  | none => simp
  | some m =>
    have hid : p.vertexOf g.id = id ↔ m = g := by
      rw [← vertexOf_index_eq_iff hg hm]
      exact ⟨fun h => congrArg Handle.index h, fun h => congrArg Handle.mk h⟩
    have hmentered := (p.mem_ownNodes.mp (List.mem_of_getElem? hm)).1
    have hhost : p.host n.id = m.id ↔ m = g := by
      rw [← hgid]
      exact ⟨fun h => p.eq_of_entered hmentered (p.mem_ownNodes.mp hg).1 h.symm,
        fun h => congrArg Node.id h.symm⟩
    simp only [Option.map_some, hid, hostIn, guests_concat, hhost]
    split <;> simp [TaskConfig.fuse]

/-- One more chain is appended. -/
theorem Hosts.append (h : p.Hosts job l sequence graph pending placed) {n : Node}
    (hn : n ∈ p.fusedNodes) (hnew : n ∉ sequence) (hseq : sequence ⊆ p.entered) :
    p.Hosts job l (sequence ++ [n])
      (graph.updateVertex (p.vertexOf (p.host n.id)) fun v =>
        { v with config := v.config.fuse (taskIn l n) })
      (pending.setIfInBounds (p.chainOf n.id).index none)
      (placed.setIfInBounds (p.chainOf n.id).index
        (some ⟨p.vertexOf (p.host n.id), (p.guests sequence (p.host n.id)).length⟩)) where
  vertex := vertex?_fuse h.vertex (p.mem_fusedNodes.mp hn).1
  pending := by
    refine getElem?_set_chainOf h.pending hn (by simp) ?_
    intro m hm
    simp [hm]
  placed := by
    have hfresh : ∀ m ∈ sequence, m.id ≠ n.id := by
      intro m hm hid
      exact hnew (p.eq_of_entered (hseq hm) (p.mem_fusedNodes.mp hn).1 hid ▸ hm)
    refine getElem?_set_chainOf h.placed hn (by simp [p.placeIn_concat_self hfresh]) ?_
    intro m hne
    by_cases hmem : m ∈ sequence
    · simp [hmem, p.placeIn_concat_of_mem hmem]
    · simp [hmem, hne]
  job := h.job
  name := h.name
  config := h.config

/-- All chains that are left are appended, one after another. -/
theorem appendFrom_run {rest : List Node} (h : p.Hosts job l sequence graph pending placed)
    (hsplit : p.hostSequence = sequence ++ rest) (hres : ∀ n ∈ p.hostSequence, n ∈ l.resolved) :
    ∃ graph' pending' placed',
      appendFrom graph pending placed (rest.map fun n => p.chainOf n.id) = .ok (graph', placed') ∧
        p.Hosts job l p.hostSequence graph' pending' placed' := by
  induction rest generalizing sequence graph pending placed with
  | nil =>
    rw [List.append_nil] at hsplit
    refine ⟨graph, pending, placed, ?_, hsplit ▸ h⟩
    -- All fused nodes are in the sequence, so nothing is pending.
    have hnone : pending.toList.findSome? id = none := by
      refine List.findSome?_eq_none_iff.mpr fun c hc => ?_
      obtain ⟨i, hi⟩ := List.mem_iff_getElem?.mp hc
      rw [Array.getElem?_toList, h.pending i] at hi
      obtain ⟨n, hn, rfl⟩ := Option.map_eq_some_iff.mp hi
      have hmem := p.mem_hostSequence.mpr (p.mem_fusedNodes.mp (List.mem_of_getElem? hn))
      exact if_pos (hsplit ▸ hmem)
    simp only [List.map_nil, appendFrom, hnone]
  | cons n rest ih =>
    have hmem : n ∈ p.hostSequence := by simp [hsplit]
    have hn : n ∈ p.fusedNodes := p.mem_fusedNodes.mpr (p.mem_hostSequence.mp hmem)
    have hnew : n ∉ sequence := by
      intro hseq
      have hnodup := hsplit ▸ p.nodup_hostSequence
      exact (List.nodup_append.mp hnodup).2.2 n hseq n (List.mem_cons_self ..) rfl
    have hseq : sequence ⊆ p.entered := by
      intro m hm
      exact (p.mem_hostSequence.mp (hsplit ▸ List.mem_append_left _ hm)).1
    obtain ⟨g, hg, hgid⟩ := exists_host_own (p.mem_fusedNodes.mp hn).1
    -- The chain is pending, it has a host, and the host has a vertex, so no look-up fails.
    have hpending : pending[(p.chainOf n.id).index]?.join = some (p.chainIn l n) := by
      simp [h.pending, getElem?_chainOf hn, hnew]
    have hhost : (p.chainIn l n).host = some (p.vertexOf (p.host n.id)) := if_pos (hres n hmem)
    have hvertex : graph.vertex? (p.vertexOf (p.host n.id)) = some (p.hostIn l sequence g) := by
      rw [h.vertex, ← hgid, getElem?_vertexOf hg]
      rfl
    have hlength : (p.hostIn l sequence g).config.fused.length =
        (p.guests sequence (p.host n.id)).length := by
      simp [hostIn, hgid]
    obtain ⟨graph', pending', placed', hrun, h'⟩ :=
      ih (h.append hn hnew hseq) (by simp [hsplit])
    refine ⟨graph', pending', placed', ?_, h'⟩
    simp only [List.map_cons, appendFrom, hpending, hhost, hvertex, hlength]
    exact hrun

end Plan

end Dataflow
