import Mathlib.Data.List.Nodup
import Dataflow.Lowering.Fusion

/-! # Appending chains in any sequence

    Chains can be appended to a graph exactly if the sequence lists each of them
    once and each has a host among the vertices, whatever the graph, the chains
    and the sequence are. A vertex then has the tasks of its chains behind those
    that it had before, in the order of the sequence, and the place of a chain
    says where its task is.

    The invariant of the loop is that the chains that have been appended are the
    ones whose slots are empty. So the chain that comes next is missing from its
    slot only if it has come before or never was.

    Main statements:
    - `appendFrom_ends`: what is appended from some point on, or the first
      obstacle on the way
    - `appendChains_decides`: when chains can be appended, and what comes of it
-/

namespace Dataflow

namespace Lowering

/-! ## Section 1: What appending asks for and makes -/

/-- The fused task that a chain becomes. -/
def Chain.task (chain : Chain) : FusedTask := ⟨chain.driver, chain.config, chain.name⟩

/-- The chains of a sequence that a vertex hosts, in the order of the sequence. -/
def hostedBy (chains : Array Chain) (sequence : List ChainId) (host : VertexId) : List Chain :=
  (sequence.filterMap fun id => chains[id.index]?).filter fun chain => chain.host = some host

/-- The vertex with the tasks of some chains behind its own. -/
def withTasks (v : Vertex) (guests : List Chain) : Vertex :=
  { v with config := { v.config with fused := v.config.fused ++ guests.map Chain.task } }

/-- The graph in which every vertex has the tasks of the chains of a sequence that it hosts. -/
def withChains (graph : JobGraph) (chains : Array Chain) (sequence : List ChainId) : JobGraph :=
  { graph with
    vertices := graph.vertices.mapIdx fun i v => withTasks v (hostedBy chains sequence ⟨i⟩) }

/-- A chain stands in the arena and has a host among the vertices of a graph. -/
structure Placed (graph : JobGraph) (chains : Array Chain) (id : ChainId) (chain : Chain)
    (host : VertexId) (v : Vertex) : Prop where
  /-- The handle names the chain. -/
  named : chains[id.index]? = some chain
  /-- The chain has the host. -/
  hosted : chain.host = some host
  /-- The host is a vertex of the graph. -/
  known : graph.vertex? host = some v

/-- The chains of a sequence can be appended one after another: none comes twice, and each has a host
among the vertices. -/
structure Placeable (graph : JobGraph) (chains : Array Chain) (sequence : List ChainId) : Prop where
  /-- No chain comes twice. -/
  nodup : sequence.Nodup
  /-- Each chain has a host. -/
  placed : ∀ id ∈ sequence, ∃ chain host v, Placed graph chains id chain host v

/-- A sequence lists each chain exactly once and nothing else, and every chain has a host among the
vertices. -/
structure Appendable (graph : JobGraph) (chains : Array Chain) (sequence : List ChainId) : Prop where
  /-- The numbers in the sequence are those of the chains. -/
  listed : (sequence.map Handle.index).Perm (List.range chains.size)
  /-- Every chain has a host. -/
  hosted : ∀ chain ∈ chains, ∃ host v, chain.host = some host ∧ graph.vertex? host = some v

/-- A graph and a table of places are what comes of appending chains in a sequence. -/
structure Appended (graph : JobGraph) (chains : Array Chain) (sequence : List ChainId)
    (graph' : JobGraph) (places : Array (Option Place)) : Prop where
  /-- Every vertex has the tasks of its chains behind its own, and nothing else changes. -/
  result : graph' = withChains graph chains sequence
  /-- There is a place for each chain and no other. -/
  size : places.size = chains.size
  /-- The place of a chain is at its host, behind the old tasks and those of the chains that come
  before it, and that is where its task is. -/
  place : ∀ before id after, sequence = before ++ id :: after → ∃ chain host v v',
    Placed graph chains id chain host v ∧ graph'.vertex? host = some v' ∧
      let position := v.config.fused.length + (hostedBy chains before host).length
      places[id.index]? = some (some ⟨host, position⟩) ∧
        v'.config.fused[position]? = some chain.task

/-- The first thing that keeps the chains of a sequence from being appended, with the error that says
so. -/
inductive Obstacle (graph : JobGraph) (chains : Array Chain) (sequence : List ChainId) :
    StepError → Prop where
  /-- A chain comes a second time, or there is no such chain. -/
  | taken {before after : List ChainId} {id : ChainId} (hsplit : sequence = before ++ id :: after)
      (hbefore : Placeable graph chains before) (hid : id ∈ before ∨ chains.size ≤ id.index) :
      Obstacle graph chains sequence (.violation (.appendedTwice id))
  /-- A chain has no host. -/
  | unhosted {before after : List ChainId} {id : ChainId} {chain : Chain}
      (hsplit : sequence = before ++ id :: after) (hbefore : Placeable graph chains before)
      (hnew : id ∉ before) (hchain : chains[id.index]? = some chain) (hhost : chain.host = none) :
      Obstacle graph chains sequence (.violation (.unhostedChain chain.name))
  /-- The host of a chain is no vertex. -/
  | unknown {before after : List ChainId} {id : ChainId} {chain : Chain} {host : VertexId}
      (hsplit : sequence = before ++ id :: after) (hbefore : Placeable graph chains before)
      (hnew : id ∉ before) (hchain : chains[id.index]? = some chain)
      (hhost : chain.host = some host) (hvertex : graph.vertex? host = none) :
      Obstacle graph chains sequence (.fault (.graph (.unknownVertex host)))
  /-- The first chain that is not in the sequence is left over. -/
  | leftover {i : Nat} {chain : Chain} (hall : Placeable graph chains sequence)
      (hchain : chains[i]? = some chain) (hleft : ⟨i⟩ ∉ sequence)
      (hfirst : ∀ j < i, ⟨j⟩ ∈ sequence) :
      Obstacle graph chains sequence (.violation (.unresolvedChain chain.name))

variable {graph graph' : JobGraph} {chains : Array Chain} {sequence done : List ChainId}
  {pending : Array (Option Chain)} {places : Array (Option Place)} {chain : Chain} {host : VertexId}
  {v : Vertex}

/-- With an obstacle the chains cannot be appended. -/
theorem Obstacle.not_appendable {e : StepError} (h : Obstacle graph chains sequence e) :
    ¬ Appendable graph chains sequence := by
  rintro ⟨hlisted, hhosted⟩
  have hnodup : sequence.Nodup := List.Nodup.of_map _ (hlisted.nodup_iff.mpr List.nodup_range)
  have hmem : ∀ id : ChainId, id ∈ sequence → id.index < chains.size := fun id hid =>
    List.mem_range.mp (hlisted.mem_iff.mp (List.mem_map_of_mem hid))
  cases h with
  | @taken before after id hsplit _ hid =>
    rcases hid with hid | hid
    · have hnodup := hsplit ▸ hnodup
      exact (List.nodup_append.mp hnodup).2.2 id hid id (List.mem_cons_self ..) rfl
    · exact absurd (hmem id (by simp [hsplit])) (Nat.not_lt.mpr hid)
  | unhosted _ _ _ hchain hhost =>
    obtain ⟨host, v, hsome, -⟩ := hhosted _ (Array.mem_of_getElem? hchain)
    simp [hhost] at hsome
  | unknown _ _ _ hchain hhost hvertex =>
    obtain ⟨host', v, hsome, hv⟩ := hhosted _ (Array.mem_of_getElem? hchain)
    obtain rfl := Option.some.inj (hhost.symm.trans hsome)
    simp [hvertex] at hv
  | @leftover i chain _ hchain hleft _ =>
    have hlt : i < chains.size := (Array.getElem?_eq_some_iff.mp hchain).1
    obtain ⟨id, hid, rfl⟩ := List.mem_map.mp (hlisted.mem_iff.mpr (List.mem_range.mpr hlt))
    exact hleft hid

/-! ## Section 2: One more chain -/

theorem hostedBy_concat (chains : Array Chain) (done : List ChainId) {id : ChainId}
    (hchain : chains[id.index]? = some chain) (host' : VertexId) :
    hostedBy chains (done ++ [id]) host' = if chain.host = some host' then
      hostedBy chains done host' ++ [chain] else hostedBy chains done host' := by
  simp only [hostedBy, List.filterMap_append, List.filter_append, List.filterMap_cons, hchain,
    List.filterMap_nil]
  by_cases h : chain.host = some host' <;> simp [h]

theorem vertex?_withChains (graph : JobGraph) (chains : Array Chain) (done : List ChainId)
    (host : VertexId) : (withChains graph chains done).vertex? host =
      (graph.vertex? host).map fun v => withTasks v (hostedBy chains done host) := by
  simp only [withChains, JobGraph.vertex?, Array.getElem?_mapIdx]

theorem length_fused_withTasks (v : Vertex) (guests : List Chain) :
    (withTasks v guests).config.fused.length = v.config.fused.length + guests.length := by
  simp [withTasks]

/-- A vertex without chains is as it was. -/
theorem withTasks_nil (v : Vertex) : withTasks v [] = v := by
  have hconfig : ({ v.config with fused := v.config.fused ++ [] } : TaskConfig) = v.config := by
    rw [List.append_nil]
    cases v.config
    rfl
  show { v with config := { v.config with fused := v.config.fused ++ [] } } = v
  rw [hconfig]

/-- A graph to which no chain has been appended is as it was. -/
theorem withChains_nil (graph : JobGraph) (chains : Array Chain) :
    withChains graph chains [] = graph := by
  have hvertices : graph.vertices.mapIdx (fun i v => withTasks v (hostedBy chains [] ⟨i⟩)) =
      graph.vertices := by
    apply Array.ext_getElem?
    intro i
    rw [Array.getElem?_mapIdx]
    cases graph.vertices[i]? with
    | none => rfl
    | some v => exact congrArg some (withTasks_nil v)
  rw [withChains, hvertices]

/-- One more chain is one more task at its host. -/
theorem withChains_concat {id : ChainId} (h : Placed graph chains id chain host v) :
    withChains graph chains (done ++ [id]) = (withChains graph chains done).updateVertex host
      fun v => { v with config := v.config.fuse chain.task } := by
  have hvertices : (withChains graph chains (done ++ [id])).vertices =
      ((withChains graph chains done).updateVertex host fun v =>
        { v with config := v.config.fuse chain.task }).vertices := by
    apply Array.ext_getElem?
    intro i
    show (withChains graph chains (done ++ [id])).vertex? ⟨i⟩ =
      JobGraph.vertex? (JobGraph.updateVertex _ host _) ⟨i⟩
    rw [JobGraph.vertex?_updateVertex, vertex?_withChains, vertex?_withChains,
      hostedBy_concat chains done h.named, h.hosted]
    simp only [Option.some.injEq]
    -- Only the host has one more chain, and its task comes last.
    split
    · simp [withTasks, TaskConfig.fuse, Function.comp_def]
    · rfl
  simp only [JobGraph.updateVertex] at hvertices ⊢
  rw [← hvertices]
  rfl

/-! ## Section 3: The loop -/

/-- The place that a chain gets when others have been appended before it. -/
def seat (graph : JobGraph) (chains : Array Chain) (before : List ChainId) (id : ChainId) :
    Option Place := do
  let chain ← chains[id.index]?
  let host ← chain.host
  let v ← graph.vertex? host
  return ⟨host, v.config.fused.length + (hostedBy chains before host).length⟩

theorem seat_eq {id : ChainId} (h : Placed graph chains id chain host v) (before : List ChainId) :
    seat graph chains before id =
      some ⟨host, v.config.fused.length + (hostedBy chains before host).length⟩ := by
  simp [seat, h.named, h.hosted, h.known]

/-- Some chains have been appended: their slots are empty, and they have their places. -/
structure Appending (graph : JobGraph) (chains : Array Chain) (done : List ChainId)
    (graph' : JobGraph) (pending : Array (Option Chain)) (places : Array (Option Place)) : Prop where
  /-- They could be appended. -/
  placeable : Placeable graph chains done
  /-- The graph has their tasks. -/
  result : graph' = withChains graph chains done
  /-- The other chains are pending. -/
  pending : ∀ id : ChainId, pending[id.index]? =
    (chains[id.index]?).map fun chain => if id ∈ done then none else some chain
  /-- There is room for the place of each chain. -/
  size : places.size = chains.size
  /-- They have their places. -/
  place : ∀ before id after, done = before ++ id :: after →
    places[id.index]? = some (seat graph chains before id)

theorem appending_start (graph : JobGraph) (chains : Array Chain) :
    Appending graph chains [] graph (chains.map some) (Array.replicate chains.size none) where
  placeable := ⟨List.nodup_nil, fun id hid => absurd hid List.not_mem_nil⟩
  result := (withChains_nil graph chains).symm
  pending id := by
    rw [Array.getElem?_map]
    rfl
  size := Array.size_replicate
  place before id after h := by simp at h

namespace Appending

/-- The slot of a chain that has been appended is empty, and so is one where no chain ever was. -/
theorem slot_eq_none_iff (h : Appending graph chains done graph' pending places) (id : ChainId) :
    pending[id.index]?.join = none ↔ id ∈ done ∨ chains.size ≤ id.index := by
  rw [h.pending id]
  cases hchain : chains[id.index]? with
  | none => simpa using Or.inr (Array.getElem?_eq_none_iff.mp hchain)
  | some chain =>
    have hlt := (Array.getElem?_eq_some_iff.mp hchain).1
    by_cases hid : id ∈ done
    · simp [hid]
    · simp [hid, hlt]

/-- A chain that is pending stands in the arena and has not been appended. -/
theorem slot_eq_some (h : Appending graph chains done graph' pending places) {id : ChainId}
    (hslot : pending[id.index]?.join = some chain) :
    chains[id.index]? = some chain ∧ id ∉ done := by
  rw [h.pending id] at hslot
  cases hchain : chains[id.index]? with
  | none => simp [hchain] at hslot
  | some other =>
    by_cases hid : id ∈ done
    · simp [hchain, hid] at hslot
    · obtain rfl : other = chain := by simpa [hchain, hid] using hslot
      exact ⟨rfl, hid⟩

/-- One more chain is taken from its slot and appended to its host. -/
theorem append (h : Appending graph chains done graph' pending places) {id : ChainId}
    (hnew : id ∉ done) (hid : Placed graph chains id chain host v) {v' : Vertex}
    (hv' : graph'.vertex? host = some v') :
    Appending graph chains (done ++ [id])
      (graph'.updateVertex host fun v => { v with config := v.config.fuse chain.task })
      (pending.setIfInBounds id.index none)
      (places.setIfInBounds id.index (some ⟨host, v'.config.fused.length⟩)) where
  placeable := by
    refine ⟨List.nodup_append.mpr ⟨h.placeable.nodup, List.nodup_singleton id, ?_⟩, ?_⟩
    · rintro other hother _ hself rfl
      exact hnew (List.mem_singleton.mp hself ▸ hother)
    · intro other hother
      rcases List.mem_append.mp hother with hother | hother
      · exact h.placeable.placed other hother
      · exact List.mem_singleton.mp hother ▸ ⟨chain, host, v, hid⟩
  result := by rw [h.result, withChains_concat hid]
  pending other := by
    have hother := h.pending other
    have hlt : id.index < pending.size := by
      apply (Array.getElem?_eq_some_iff.mp (?_ : pending[id.index]? = some (some chain))).1
      simp [h.pending id, hid.named, hnew]
    rw [Array.getElem?_setIfInBounds]
    by_cases hindex : id.index = other.index
    · obtain rfl : id = other := congrArg Handle.mk hindex
      simp [hlt, hid.named]
    · have hne : other ≠ id := fun heq => hindex (congrArg Handle.index heq.symm)
      simp [hindex, hother, hne]
  size := Array.size_setIfInBounds.trans h.size
  place before other after hsplit := by
    rw [Array.getElem?_setIfInBounds]
    rcases List.eq_nil_or_concat' after with rfl | ⟨after, last, rfl⟩
    · -- The chain itself is the last one; what its host had before is what its place counts.
      obtain ⟨rfl, hlast⟩ := List.append_inj' hsplit rfl
      obtain rfl : id = other := List.head_eq_of_cons_eq hlast
      have hlt : id.index < places.size :=
        h.size ▸ (Array.getElem?_eq_some_iff.mp hid.named).1
      rw [h.result, vertex?_withChains, hid.known, Option.map_some, Option.some.injEq] at hv'
      rw [if_pos rfl, if_pos hlt, seat_eq hid, ← hv', length_fused_withTasks]
    · rw [← List.cons_append, ← List.append_assoc] at hsplit
      obtain ⟨hsplit, -⟩ := List.append_inj' hsplit rfl
      have hne : id.index ≠ other.index := by
        intro hindex
        obtain rfl : id = other := congrArg Handle.mk hindex
        exact hnew (by simp [hsplit])
      rw [if_neg hne]
      exact h.place before other after hsplit

/-- The first chain that is pending when the sequence ends is left over. -/
theorem obstacle_of_orphan (h : Appending graph chains done graph' pending places)
    (horphan : pending.toList.findSome? id = some chain) :
    Obstacle graph chains done (.violation (.unresolvedChain chain.name)) := by
  obtain ⟨before, slot, after, hsplit, hslot, hbefore⟩ := List.findSome?_eq_some_iff.mp horphan
  obtain rfl : slot = some chain := hslot
  have hget : ∀ i : Nat, pending[i]? = (before ++ some chain :: after)[i]? := by
    intro i
    rw [← hsplit, Array.getElem?_toList]
  have hself : pending[(⟨before.length⟩ : ChainId).index]?.join = some chain := by
    rw [hget]
    simp
  obtain ⟨hchain, hleft⟩ := h.slot_eq_some hself
  refine .leftover h.placeable hchain hleft fun j hj => ?_
  -- The slots before it are empty, and each of them had its chain.
  have hempty : pending[(⟨j⟩ : ChainId).index]?.join = none := by
    have hslot : before[j] = none := hbefore _ (List.getElem_mem hj)
    rw [hget, List.getElem?_append_left hj, List.getElem?_eq_getElem hj, hslot]
    rfl
  have hlt := (Array.getElem?_eq_some_iff.mp hchain).1
  rcases (h.slot_eq_none_iff ⟨j⟩).mp hempty with hmem | hge
  · exact hmem
  · exact absurd (Nat.lt_trans hj hlt) (Nat.not_lt.mpr hge)

/-- When nothing is pending every chain has been appended. -/
theorem mem_done (h : Appending graph chains done graph' pending places)
    (hnone : pending.toList.findSome? id = none) {id : ChainId} (hid : id.index < chains.size) :
    id ∈ done := by
  have hchain : chains[id.index]? = some chains[id.index] := Array.getElem?_eq_getElem hid
  by_contra hnew
  have hslot : pending[id.index]? = some (some chains[id.index]) := by
    rw [h.pending id, hchain, Option.map_some, if_neg hnew]
  have hmem : some chains[id.index] ∈ pending.toList :=
    Array.mem_toList_iff.mpr (Array.mem_of_getElem? hslot)
  exact absurd (List.findSome?_eq_none_iff.mp hnone _ hmem) (Option.some_ne_none _)

/-- When every chain has been appended the sequence was one that lists each of them once. -/
theorem appendable (h : Appending graph chains done graph' pending places)
    (hall : ∀ id : ChainId, id.index < chains.size → id ∈ done) : Appendable graph chains done where
  listed := by
    have hinjective : Function.Injective (Handle.index : ChainId → Nat) :=
      fun _ _ hindex => congrArg Handle.mk hindex
    apply (List.perm_ext_iff_of_nodup (h.placeable.nodup.map hinjective) List.nodup_range).mpr
    intro i
    rw [List.mem_map, List.mem_range]
    constructor
    · rintro ⟨id, hid, rfl⟩
      obtain ⟨chain, host, v, hplaced⟩ := h.placeable.placed id hid
      exact (Array.getElem?_eq_some_iff.mp hplaced.named).1
    · intro hi
      exact ⟨⟨i⟩, hall ⟨i⟩ hi, rfl⟩
  hosted chain hchain := by
    obtain ⟨i, hi⟩ := Array.mem_iff_getElem?.mp hchain
    have hlt := (Array.getElem?_eq_some_iff.mp hi).1
    obtain ⟨other, host, v, hplaced⟩ := h.placeable.placed ⟨i⟩ (hall ⟨i⟩ hlt)
    obtain rfl : chain = other := Option.some.inj (hi.symm.trans hplaced.named)
    exact ⟨host, v, hplaced.hosted, hplaced.known⟩

/-- What has been appended is what comes of appending. -/
theorem appended (h : Appending graph chains done graph' pending places) :
    Appended graph chains done graph' places where
  result := h.result
  size := h.size
  place before id after hsplit := by
    obtain ⟨chain, host, v, hid⟩ := h.placeable.placed id (by simp [hsplit])
    refine ⟨chain, host, v, withTasks v (hostedBy chains done host), hid, ?_, ?_, ?_⟩
    · rw [h.result, vertex?_withChains, hid.known, Option.map_some]
    · rw [h.place before id after hsplit, seat_eq hid]
    · -- The chain stands behind those of its host that come before it.
      have hhosted : hostedBy chains done host =
          hostedBy chains before host ++ chain :: hostedBy chains after host := by
        simp [hsplit, hostedBy, hid.named, hid.hosted]
      simp [withTasks, hhosted]

end Appending

/-- From some point on, the chains of a sequence are appended one after another, and then each has
been; or the first obstacle shows. -/
theorem appendFrom_ends (h : Appending graph chains done graph' pending places)
    (rest : List ChainId) :
    match appendFrom graph' pending places rest with
    | .ok (graph', places) =>
      Appendable graph chains (done ++ rest) ∧ Appended graph chains (done ++ rest) graph' places
    | .error e => Obstacle graph chains (done ++ rest) e := by
  induction rest generalizing done graph' pending places with
  | nil =>
    rw [List.append_nil]
    unfold appendFrom
    cases horphan : pending.toList.findSome? id with
    | some orphan => exact h.obstacle_of_orphan horphan
    | none => exact ⟨h.appendable fun _ hid => h.mem_done horphan hid, h.appended⟩
  | cons id rest ih =>
    unfold appendFrom
    cases hslot : pending[id.index]?.join with
    | none => exact .taken rfl h.placeable ((h.slot_eq_none_iff id).mp hslot)
    | some chain =>
      obtain ⟨hchain, hnew⟩ := h.slot_eq_some hslot
      cases hhost : chain.host with
      | none =>
        simp only [hhost]
        exact .unhosted rfl h.placeable hnew hchain hhost
      | some host =>
        simp only [hhost]
        have hgraph := vertex?_withChains graph chains done host
        rw [← h.result] at hgraph
        -- A host is a vertex exactly if it was one before anything was appended.
        cases hv : graph.vertex? host with
        | none =>
          rw [hv, Option.map_none] at hgraph
          simp only [hgraph]
          exact .unknown rfl h.placeable hnew hchain hhost hv
        | some v =>
          rw [hv, Option.map_some] at hgraph
          simp only [hgraph]
          have hnext := ih (h.append hnew ⟨hchain, hhost, hv⟩ hgraph)
          rwa [List.append_assoc] at hnext

/-- Chains can be appended exactly if the sequence lists each of them once and nothing else and each
has a host among the vertices. Then every vertex has the tasks of its chains behind its own in the
order of the sequence, nothing else changes, and every chain has its place. Otherwise the error is for
the first obstacle. -/
theorem appendChains_decides (graph : JobGraph) (chains : Array Chain) (sequence : List ChainId) :
    ((∃ r, appendChains graph chains sequence = .ok r) ↔ Appendable graph chains sequence) ∧
      (∀ graph' places, appendChains graph chains sequence = .ok (graph', places) →
        Appended graph chains sequence graph' places) ∧
      ∀ e, appendChains graph chains sequence = .error e → Obstacle graph chains sequence e := by
  have hends := appendFrom_ends (appending_start graph chains) sequence
  rw [List.nil_append] at hends
  unfold appendChains
  cases hrun : appendFrom graph (chains.map some) (Array.replicate chains.size none) sequence with
  | ok r =>
    obtain ⟨graph', places⟩ := r
    rw [hrun] at hends
    obtain ⟨happendable, happended⟩ := hends
    refine ⟨⟨fun _ => happendable, fun _ => ⟨_, rfl⟩⟩, ?_, by simp⟩
    rintro _ _ ⟨⟩
    exact happended
  | error e =>
    rw [hrun] at hends
    have hobstacle : Obstacle graph chains sequence e := hends
    refine ⟨⟨by simp, fun h => absurd h hobstacle.not_appendable⟩, by simp, ?_⟩
    rintro _ ⟨⟩
    exact hobstacle

/-- Of two chains of one vertex the one that comes first in the sequence is placed first. -/
example :
    let chain (name : String) : Chain := { driver := "", config := {}, name, host := some ⟨0⟩ }
    let vertex : Vertex := { id := ⟨0⟩, name := "", kind := .input, taskClass := .dataSource }
    (appendChains { id := .zero, name := "", vertices := #[vertex] } #[chain "first", chain "second"]
      [⟨1⟩, ⟨0⟩]).map Prod.snd = .ok #[some ⟨⟨0⟩, 1⟩, some ⟨⟨0⟩, 0⟩] := by cbv

end Lowering

end Dataflow
