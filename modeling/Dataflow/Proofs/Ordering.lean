import Mathlib.Data.List.Nodup
import Mathlib.Data.List.Perm.Subperm
import Dataflow.Proofs.Chronicle
import Dataflow.Proofs.Enrolling
import Dataflow.Proofs.Hosting

/-! # The order of a compilation

    Between any two callbacks of a walk, whether it ends well or not, what nodes
    have become is in order: nothing is registered twice, no union is registered,
    and the chains with a host are those of the nodes that have been left. So
    when a node is left, everything that feeds it has a place to wire from, also
    through unions, and though it may have been walked long before and for
    another consumer.

    The state at such a point is what the schedule has built so far. The walk
    makes more callbacks than the schedule has, but those change nothing.

    Main statement:
    - `walk_orderly`: what holds between any two callbacks of a walk
-/

namespace Dataflow

namespace Plan

open Lowering

/-! ## Section 1: States in order -/

/-- What nodes have become, and which chains have a host, is in order after some callbacks. What is
registered is what has been reported, node by node, so a second time would show. -/
structure Orderly (p : Plan) (history : List Callback) (s : State) : Prop where
  /-- No node is registered twice. -/
  once : (s.registrations.map Prod.fst).Nodup
  /-- No node is registered both with a vertex and with a chain. -/
  apart : ∀ id vertex chain, (id, .vertex vertex) ∈ s.registrations →
    (id, .fused chain) ∉ s.registrations
  /-- The vertex that is registered for a node is the one that is found for it. -/
  vertexOf : ∀ id vertex, (id, .vertex vertex) ∈ s.registrations ↔ s.vertexOf? id = some vertex
  /-- The chain that is registered for a node is the one that is found for it. -/
  chainOf : ∀ id chain, (id, .fused chain) ∈ s.registrations ↔ s.chainOf? id = some chain
  /-- No union is registered. -/
  noUnion : ∀ id o, (id, o) ∈ s.registrations → ∃ n, p.node? id = some n ∧ n.isUnion = false
  /-- No chain is registered for two nodes. -/
  exclusive : ∀ id id' chain, (id, .fused chain) ∈ s.registrations →
    (id', .fused chain) ∈ s.registrations → id = id'
  /-- The chains are those that are registered. -/
  chains : ∀ c, (s.chain? c).isSome ↔ ∃ id, (id, .fused c) ∈ s.registrations
  /-- A chain has a host exactly if its node has been left. -/
  hosted : ∀ id c chain, (id, .fused c) ∈ s.registrations → s.chain? c = some chain →
    (chain.host.isSome ↔ ∃ n, p.node? id = some n ∧ .leave n ∈ history)
  /-- A host is a vertex. -/
  host : ∀ c chain host, s.chain? c = some chain → chain.host = some host →
    ∃ v, s.graph.vertex? host = some v
  /-- The chains in the sequence are those of the nodes that have been left, in this order. -/
  sequence : s.resolved.toList =
    (history.filterMap Callback.left?).filterMap fun n => s.chainOf? n.id
  /-- No chain is in the sequence twice. -/
  sequenceOnce : s.resolved.toList.Nodup
  /-- A chain is in the sequence exactly if it has a host. -/
  resolved : ∀ c chain, s.chain? c = some chain → (c ∈ s.resolved ↔ chain.host.isSome)

/-- What a state has registered, hosted and put into the sequence stays as it is in another one. -/
structure Abides (s s' : State) : Prop where
  /-- Registrations stay. -/
  registrations : s.registrations <+: s'.registrations
  /-- A host that is known stays the same. -/
  host : ∀ c chain host, s.chain? c = some chain → chain.host = some host →
    ∃ chain', s'.chain? c = some chain' ∧ chain'.host = some host
  /-- The sequence grows at its end. -/
  sequence : s.resolved.toList <+: s'.resolved.toList

/-- A node other than a union feeds another one, directly or through unions. -/
inductive Upstream (p : Plan) (m : Node) : Node → Prop where
  | direct {n : Node} {c : ChannelId} {ch : Channel} (hc : c ∈ n.inputs)
      (hch : p.channel? c = some ch) (hm : p.node? ch.source = some m) (hu : m.isUnion = false) :
      Upstream p m n
  | through {n union : Node} {c : ChannelId} {ch : Channel} (hc : c ∈ n.inputs)
      (hch : p.channel? c = some ch) (hsource : p.node? ch.source = some union)
      (hu : union.isUnion = true) (h : Upstream p m union) : Upstream p m n

/-- A node has a place to wire from: its vertex, or the host of its chain. -/
def Served (s : State) (m : Node) : Prop :=
  (∃ vertex, (m.id, .vertex vertex) ∈ s.registrations) ∨
    ∃ c chain host, (m.id, .fused c) ∈ s.registrations ∧ s.chain? c = some chain ∧
      chain.host = some host

/-! ## Section 2: What the schedule has built -/

variable {p : Plan} {policy : SpillPolicy} {job : JobId} {history done done' : List Callback}
  {s s' : State}

/-- The state shows what some callbacks have built, and its ledger names their nodes. -/
structure Stands (p : Plan) (policy : SpillPolicy) (job : JobId) (done : List Callback)
    (s : State) : Prop where
  /-- They are the first ones of the schedule. -/
  begun : done <+: p.schedule
  /-- The state shows what they have built. -/
  reaches : p.Reaches policy job done s
  /-- The ledger names the nodes that they enter. -/
  enrolled : p.Enrolled done s

theorem vertexOf?_eq_some {id : NodeId} {vertex : VertexId} :
    s.vertexOf? id = some vertex ↔ s.outcome? id = some (.vertex vertex) := by
  unfold State.vertexOf?
  split <;> simp_all

theorem chainOf?_eq_some {id : NodeId} {chain : ChainId} :
    s.chainOf? id = some chain ↔ s.outcome? id = some (.fused chain) := by
  unfold State.chainOf?
  split <;> simp_all

theorem becomes_eq_fused {n : Node} {c : ChainId} :
    p.becomes n = .fused c ↔ p.fuses n = true ∧ p.chainOf n.id = c := by
  unfold becomes
  cases hf : p.fuses n <;> simp

theorem becomes_eq_vertex {n : Node} {id : VertexId} :
    p.becomes n = .vertex id ↔ p.fuses n = false ∧ p.vertexOf n.id = id := by
  unfold becomes
  cases hf : p.fuses n <;> simp

namespace Stands

variable (h : p.Stands policy job done s)
include h

theorem made_iff {n : Node} : n ∈ madeNodes (p.journal done) ↔ .enter n ∈ done :=
  mem_madeNodes_journal h.begun

theorem mem_registrations {id : NodeId} {o : Outcome} : (id, o) ∈ s.registrations ↔
    ∃ n, .enter n ∈ done ∧ n.id = id ∧ p.becomes n = o := by
  rw [h.enrolled, List.mem_map]
  constructor
  · rintro ⟨n, hn, heq⟩
    obtain ⟨rfl, rfl⟩ := Prod.mk.inj heq
    exact ⟨n, mem_filterMap_entered?.mp hn, rfl, rfl⟩
  · rintro ⟨n, hn, rfl, rfl⟩
    exact ⟨n, mem_filterMap_entered?.mpr hn, rfl⟩

/-- A node that has been entered is one that the walk enters. -/
theorem mem_entered {n : Node} (hn : .enter n ∈ done) : n ∈ p.entered :=
  p.mem_entered.mpr (p.mem_schedule.mp (h.begun.subset hn))

theorem mem_fusedNodes {n : Node} (hn : .enter n ∈ done) (hf : p.fuses n = true) :
    n ∈ p.fusedNodes :=
  p.mem_fusedNodes.mpr ⟨h.mem_entered hn, hf⟩

/-- A chain is that of a fused node, and has a host if the node has been left. -/
theorem chain?_eq_some {c : ChainId} {chain : Chain} (hchain : s.chain? c = some chain) :
    ∃ n, .enter n ∈ done ∧ p.fuses n = true ∧ p.chainOf n.id = c ∧
      chain = p.chainIn (p.layoutAfter policy (p.journal done)) n := by
  have hshow := h.reaches.chain c
  rw [hchain] at hshow
  obtain ⟨n, hn, rfl⟩ := Option.map_eq_some_iff.mp hshow.symm
  obtain ⟨hmade, hf⟩ := List.mem_filter.mp (List.mem_of_getElem? hn)
  refine ⟨n, h.made_iff.mp hmade, hf, ?_, rfl⟩
  exact congrArg Handle.mk ((Shows.index_eq_iff h.reaches p.fuses hn hmade hf).mpr rfl)

theorem chain?_of_entered {n : Node} (hn : .enter n ∈ done) (hf : p.fuses n = true) :
    s.chain? (p.chainOf n.id) = some (p.chainIn (p.layoutAfter policy (p.journal done)) n) :=
  Shows.chain?_eq h.reaches (h.made_iff.mpr hn) hf

/-- The chain of a fused node has a host exactly if the node has been left, and then it is that of
the node. -/
theorem host_eq_some {n : Node} (hf : p.fuses n = true) {host : VertexId} :
    (p.chainIn (p.layoutAfter policy (p.journal done)) n).host = some host ↔
      .leave n ∈ done ∧ p.vertexOf (p.host n.id) = host := by
  have hhosted : n ∈ (p.layoutAfter policy (p.journal done)).resolved ↔ .leave n ∈ done := by
    refine (mem_hostedNodes_journal h.begun).trans ?_
    simp [hf]
  simp only [chainIn, hhosted]
  by_cases hleft : .leave n ∈ done <;> simp [hleft]

theorem host_isSome {n : Node} (hf : p.fuses n = true) :
    (p.chainIn (p.layoutAfter policy (p.journal done)) n).host.isSome ↔ .leave n ∈ done := by
  rw [Option.isSome_iff_exists]
  simp only [h.host_eq_some hf, exists_and_left, exists_eq', and_true]

theorem resolved_eq : s.resolved.toList =
    ((done.filterMap Callback.left?).filter p.fuses).map fun n => p.chainOf n.id := by
  rw [← p.hostedNodes_journal fun cb hcb => (node_of_done h.begun hcb).1]
  exact h.reaches.resolved

/-- What the state shows for a node that has been entered. -/
theorem outcome?_eq {n : Node} (hn : .enter n ∈ done) : s.outcome? n.id = some (p.becomes n) :=
  Shows.outcome?_eq h.reaches (h.made_iff.mpr hn)

/-! ## Section 3: Order between callbacks -/

theorem once : (s.registrations.map Prod.fst).Nodup := by
  have hmade := p.madeNodes_journal fun cb hcb => (node_of_done h.begun hcb).1
  have hbegun : madeNodes (p.journal done) <+: p.entered := begun_of_done h.begun
  have hnodup := p.nodup_ids p.nodup_entered fun n hn => (p.mem_entered.mp hn).1
  rw [h.enrolled, List.map_map, ← hmade]
  exact (hbegun.sublist.map _).nodup hnodup

/-- What is registered for a node is what the state shows for it. -/
theorem shown (id : NodeId) (o : Outcome) :
    (id, o) ∈ s.registrations ↔ s.outcome? id = some o := by
  rw [h.mem_registrations]
  constructor
  · rintro ⟨n, hn, rfl, rfl⟩
    exact h.outcome?_eq hn
  · intro hout
    have hshow := h.reaches.outcome id
    rw [hout] at hshow
    obtain ⟨n, hfind, -⟩ := Option.map_eq_some_iff.mp hshow.symm
    have hid : n.id = id := by simpa using List.find?_some hfind
    have hn := h.made_iff.mp (List.mem_of_find?_eq_some hfind)
    refine ⟨n, hn, hid, ?_⟩
    have hself := h.outcome?_eq hn
    rw [hid, hout] at hself
    exact (Option.some.inj hself).symm

theorem apart (id : NodeId) (vertex : VertexId) (chain : ChainId)
    (hvertex : (id, .vertex vertex) ∈ s.registrations) : (id, .fused chain) ∉ s.registrations := by
  intro hchain
  have heq := ((h.shown id _).mp hvertex).symm.trans ((h.shown id _).mp hchain)
  simp at heq

theorem exclusive (id id' : NodeId) (c : ChainId) (hid : (id, .fused c) ∈ s.registrations)
    (hid' : (id', .fused c) ∈ s.registrations) : id = id' := by
  obtain ⟨n, hn, rfl, hc⟩ := h.mem_registrations.mp hid
  obtain ⟨m, hm, rfl, hd⟩ := h.mem_registrations.mp hid'
  obtain ⟨hf, hc⟩ := becomes_eq_fused.mp hc
  obtain ⟨hg, hd⟩ := becomes_eq_fused.mp hd
  rw [chainOf_inj (h.mem_fusedNodes hn hf) (h.mem_fusedNodes hm hg) (hc.trans hd.symm)]

theorem chains (c : ChainId) :
    (s.chain? c).isSome ↔ ∃ id, (id, .fused c) ∈ s.registrations := by
  rw [Option.isSome_iff_exists]
  constructor
  · rintro ⟨chain, hchain⟩
    obtain ⟨n, hn, hf, hc, -⟩ := h.chain?_eq_some hchain
    exact ⟨n.id, h.mem_registrations.mpr ⟨n, hn, rfl, becomes_eq_fused.mpr ⟨hf, hc⟩⟩⟩
  · rintro ⟨id, hid⟩
    obtain ⟨n, hn, rfl, hc⟩ := h.mem_registrations.mp hid
    obtain ⟨hf, rfl⟩ := becomes_eq_fused.mp hc
    exact ⟨_, h.chain?_of_entered hn hf⟩

/-- The host of a node that has been left has its vertex. -/
theorem host_known {n : Node} (hn : .leave n ∈ done) :
    ∃ v, s.graph.vertex? (p.vertexOf (p.host n.id)) = some v := by
  obtain ⟨hnode, hu⟩ := node_of_done h.begun hn
  obtain ⟨g, hid, hf, hg⟩ := p.exists_host hnode hu
  have hmade := h.made_iff.mpr (callbacks_of_done h.begun hn hg)
  exact ⟨_, hid ▸ Shows.vertex?_eq h.reaches hmade hf⟩

/-- A node that has been left has a chain if it is fused. -/
theorem chainOf?_of_left {n : Node} (hn : .leave n ∈ done) :
    s.chainOf? n.id = if p.fuses n then some (p.chainOf n.id) else none := by
  have hout := h.outcome?_eq (ready_of_done h.begun hn).1
  unfold State.chainOf?
  rw [hout, becomes]
  cases p.fuses n <;> rfl

theorem chainOf?_of_union {n : Node} (hn : p.node? n.id = some n) (hu : n.isUnion = true) :
    s.chainOf? n.id = none := by
  have hnone : s.outcome? n.id = none := by
    apply outcome?_of_not_entered h.begun h.reaches hn
    intro hmem
    have hu' : n.isUnion = false := (node_of_done h.begun hmem).2
    simp [hu] at hu'
  simp [State.chainOf?, hnone]

/-- The sequence lists the chains of the nodes that have been left. -/
theorem sequence (htracks : p.Tracks history done) : s.resolved.toList =
    (history.filterMap Callback.left?).filterMap fun n => s.chainOf? n.id :=
  calc s.resolved.toList
      = ((done.filterMap Callback.left?).filter p.fuses).map fun n => p.chainOf n.id := h.resolved_eq
    _ = (done.filterMap Callback.left?).filterMap fun n => s.chainOf? n.id := by
      rw [← List.filterMap_eq_map, List.filterMap_filter]
      apply List.filterMap_congr
      intro n hn
      exact (h.chainOf?_of_left (mem_filterMap_left?.mp hn)).symm
    _ = (history.filterMap Callback.left?).filterMap fun n => s.chainOf? n.id := by
      rw [htracks.left, List.filterMap_filter]
      apply List.filterMap_congr
      intro n hn
      -- A union has been left as well, but has no chain.
      cases hu : n.isUnion with
      | false => rfl
      | true => exact (h.chainOf?_of_union (htracks.node _ (mem_filterMap_left?.mp hn)) hu).symm

theorem sequenceOnce : s.resolved.toList.Nodup := by
  have hleft : (done.filterMap Callback.left?).Nodup :=
    (h.begun.filterMap _).sublist.nodup p.nodup_left
  rw [h.resolved_eq]
  apply List.Nodup.map_on _ (hleft.filter _)
  intro n hn m hm heq
  have hfused : ∀ k ∈ (done.filterMap Callback.left?).filter p.fuses, k ∈ p.fusedNodes := by
    intro k hk
    obtain ⟨hk, hf⟩ := List.mem_filter.mp hk
    have hmem := (h.begun.filterMap _).subset hk
    exact p.mem_fusedNodes.mpr ⟨p.mem_entered.mpr (p.mem_left.mp hmem), hf⟩
  exact chainOf_inj (hfused n hn) (hfused m hm) heq

theorem mem_resolved {n : Node} (hn : .enter n ∈ done) (hf : p.fuses n = true) :
    p.chainOf n.id ∈ s.resolved ↔ .leave n ∈ done := by
  rw [← Array.mem_toList_iff, h.resolved_eq, List.mem_map]
  constructor
  · rintro ⟨m, hm, heq⟩
    obtain ⟨hm, hmf⟩ := List.mem_filter.mp hm
    have hleft := mem_filterMap_left?.mp hm
    have hentered := (ready_of_done h.begun hleft).1
    exact chainOf_inj (h.mem_fusedNodes hentered hmf) (h.mem_fusedNodes hn hf) heq ▸ hleft
  · intro hleft
    exact ⟨n, List.mem_filter.mpr ⟨mem_filterMap_left?.mpr hleft, hf⟩, rfl⟩

/-- Between two callbacks the state is in order. -/
theorem orderly (htracks : p.Tracks history done) : p.Orderly history s where
  once := h.once
  apart := h.apart
  vertexOf id vertex := (h.shown id _).trans vertexOf?_eq_some.symm
  chainOf id chain := (h.shown id _).trans chainOf?_eq_some.symm
  noUnion id o hid := by
    obtain ⟨n, hn, rfl, -⟩ := h.mem_registrations.mp hid
    exact ⟨n, node_of_done h.begun hn⟩
  exclusive := h.exclusive
  chains := h.chains
  hosted id c chain hid hchain := by
    obtain ⟨n, hn, rfl, hc⟩ := h.mem_registrations.mp hid
    obtain ⟨hf, rfl⟩ := becomes_eq_fused.mp hc
    obtain ⟨hnode, hu⟩ := node_of_done h.begun hn
    rw [h.chain?_of_entered hn hf] at hchain
    cases hchain
    rw [h.host_isSome hf, htracks.mem]
    constructor
    · rintro ⟨hleft, -⟩
      exact ⟨n, hnode, hleft⟩
    · rintro ⟨m, hm, hleft⟩
      obtain rfl : n = m := Option.some.inj (hnode.symm.trans hm)
      exact ⟨hleft, hu⟩
  host c chain host hchain hhost := by
    obtain ⟨n, hn, hf, rfl, rfl⟩ := h.chain?_eq_some hchain
    obtain ⟨hleft, rfl⟩ := (h.host_eq_some hf).mp hhost
    exact h.host_known hleft
  sequence := h.sequence htracks
  sequenceOnce := h.sequenceOnce
  resolved c chain hchain := by
    obtain ⟨n, hn, hf, rfl, rfl⟩ := h.chain?_eq_some hchain
    rw [h.mem_resolved hn hf, h.host_isSome hf]

/-- What has been registered and hosted stays while more is done. -/
theorem abides (h' : p.Stands policy job done' s') (hsub : done <+: done') : Abides s s' where
  registrations := by
    rw [h.enrolled, h'.enrolled]
    exact (hsub.filterMap _).map _
  host c chain host hchain hhost := by
    obtain ⟨n, hn, hf, rfl, rfl⟩ := h.chain?_eq_some hchain
    obtain ⟨hleft, hhost⟩ := (h.host_eq_some hf).mp hhost
    exact ⟨_, h'.chain?_of_entered (hsub.subset hn) hf,
      (h'.host_eq_some hf).mpr ⟨hsub.subset hleft, hhost⟩⟩
  sequence := by
    rw [h.resolved_eq, h'.resolved_eq]
    exact ((hsub.filterMap _).filter _).map _

/-- A node that has been left has a place to wire from. -/
theorem served {n : Node} (hn : .leave n ∈ done) : Served s n := by
  have hentered := (ready_of_done h.begun hn).1
  cases hf : p.fuses n with
  | false =>
    exact .inl ⟨p.vertexOf n.id,
      h.mem_registrations.mpr ⟨n, hentered, rfl, becomes_eq_vertex.mpr ⟨hf, rfl⟩⟩⟩
  | true =>
    exact .inr ⟨p.chainOf n.id, _, _,
      h.mem_registrations.mpr ⟨n, hentered, rfl, becomes_eq_fused.mpr ⟨hf, rfl⟩⟩,
      h.chain?_of_entered hentered hf, (h.host_eq_some hf).mpr ⟨hn, rfl⟩⟩

end Stands

/-! ## Section 4: The walk -/

/-- What feeds a node is left below one of its inputs. -/
theorem Upstream.leave_mem {m n : Node} (h : p.Upstream m n) :
    m.isUnion = false ∧ ∃ c ∈ n.inputs, .leave m ∈ p.callbacksOf c := by
  induction h with
  | @direct n c ch hc hch hm hu =>
    exact ⟨hu, c, hc, p.callbacksOf_eq hch ▸ p.leave_mem_callbacks hm hu⟩
  | @through n union c ch hc hch hsource hunion _ ih =>
    obtain ⟨hu, d, hd, hmem⟩ := ih
    exact ⟨hu, c, hc, p.callbacksOf_eq hch ▸ p.callbacksOf_subset hsource hd hmem⟩

/-- What counts of a history grows with it. -/
theorem Tracks.mono {history' : List Callback} (h : p.Tracks history done)
    (h' : p.Tracks history' done') (hdone : done <+: p.schedule) (hdone' : done' <+: p.schedule)
    (hsub : history <+: history') : done <+: done' := by
  have hmem : done ⊆ done' := by
    intro cb hcb
    obtain ⟨hcb, hu⟩ := (h.mem cb).mp hcb
    exact (h'.mem cb).mpr ⟨hsub.subset hcb, hu⟩
  have hnodup : done.Nodup := hdone.sublist.nodup p.nodup_schedule
  exact List.prefix_of_prefix_length_le hdone hdone' (List.subperm_of_subset hnodup hmem).length_le

/-- The walk of a compilation, with a log of its moments. Between any two callbacks, whether a later
one fails or not, the state is in order; what it has registered and hosted stays from one such point
to any later one; and when a node is left, everything that feeds it has a place to wire from. -/
theorem walk_orderly (policy : SpillPolicy) (job : JobId) (p : Plan) :
    ∃ log, p.walk (visitor policy p).watching (.start job p, []) =
        withLog log (p.walk (visitor policy p) (.start job p)) ∧
      (∀ history s, Point log (p.walk (visitor policy p) (.start job p)) history s →
        p.Orderly history s) ∧
      (∀ history s history' s', Point log (p.walk (visitor policy p) (.start job p)) history s →
        Point log (p.walk (visitor policy p) (.start job p)) history' s' → history <+: history' →
          Abides s s') ∧
      ∀ earlier n s later, log = earlier ++ ⟨.leave n, s⟩ :: later → ∀ m, p.Upstream m n →
        Served s m := by
  have hstart : p.Reaches policy job [] (.start job p) ∧ p.Enrolled [] (.start job p) :=
    ⟨reaches_start, enrolled_start p job⟩
  obtain ⟨log, hlog, hchronicles, hpoints⟩ := remembers_enrolled.heeds.chronicle hstart
  refine ⟨log, hlog, fun history s hpoint => ?_, fun history s history' s' hpoint hpoint' hsub => ?_,
    fun earlier n s later hsplit m hupstream => ?_⟩
  · obtain ⟨done, hdone, htracks, hreaches, henrolled⟩ := hpoints history s hpoint
    exact Stands.orderly ⟨hdone, hreaches, henrolled⟩ htracks
  · obtain ⟨done, hdone, htracks, hreaches, henrolled⟩ := hpoints history s hpoint
    obtain ⟨done', hdone', htracks', hreaches', henrolled'⟩ := hpoints history' s' hpoint'
    exact Stands.abides ⟨hdone, hreaches, henrolled⟩ ⟨hdone', hreaches', henrolled'⟩
      (htracks.mono htracks' hdone hdone' hsub)
  · obtain ⟨⟨done, hdone, htracks, hreaches, henrolled⟩, hdue⟩ := hchronicles _ _ _ hsplit
    obtain ⟨hu, c, hc, hmem⟩ := hupstream.leave_mem
    exact Stands.served ⟨hdone, hreaches, henrolled⟩ ((htracks.mem _).mpr ⟨hdue c hc hmem, hu⟩)

end Plan

end Dataflow
