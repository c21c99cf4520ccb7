import Dataflow.Proofs.Entering
import Dataflow.Proofs.Leaving

/-! # Progress of a compilation

    What is done at some point is the start of a schedule. It has made the nodes
    that are entered, hosted the fused ones that are left, and touched nothing
    else. With this, one more callback is one more step of the journal.

    Main statement:
    - `act_runs`: when the turn of a callback comes, it adds its entries or its
      fault shows
-/

namespace Dataflow

namespace Plan

open Lowering

variable {p : Plan} {done : List Callback}

/-! ## Section 1: What the start of a schedule has built -/

theorem mem_madeNodes_journal (hdone : done <+: p.schedule) {n : Node} :
    n ∈ madeNodes (p.journal done) ↔ .enter n ∈ done := by
  rw [p.madeNodes_journal fun cb hcb => (node_of_done hdone hcb).1, mem_filterMap_entered?]

theorem mem_hostedNodes_journal (hdone : done <+: p.schedule) {n : Node} :
    n ∈ hostedNodes (p.journal done) ↔ .leave n ∈ done ∧ p.fuses n = true := by
  rw [p.hostedNodes_journal fun cb hcb => (node_of_done hdone hcb).1, List.mem_filter,
    mem_filterMap_left?]

/-- The nodes that are made are the first ones that are entered. -/
theorem begun_of_done (hdone : done <+: p.schedule) :
    madeNodes (p.journal done) <+: p.entered := by
  rw [p.madeNodes_journal fun cb hcb => (node_of_done hdone hcb).1]
  exact hdone.filterMap _

/-- A node is entered before what is done is about it. -/
theorem untouched_of_not_entered (hdone : done <+: p.schedule) {n : Node}
    (hn : p.node? n.id = some n) (hnew : .enter n ∉ done) :
    ∀ e ∈ p.journal done, ¬ e.Touches p n.id := by
  have heq : ∀ {m : Node}, p.node? m.id = some m → m.id = n.id → m = n := by
    intro m hm hid
    exact p.node?_inj hm hn hid
  intro e he htouch
  obtain ⟨cb, hcb, he⟩ := List.mem_flatMap.mp he
  obtain ⟨hm, hu⟩ := node_of_done hdone hcb
  have hself : cb.node.id ≠ n.id := by
    intro hid
    have hnode : cb.node = n := heq hm hid
    cases cb with
    | enter m => exact hnew (hnode ▸ hcb)
    | leave m => exact hnew (hnode ▸ (ready_of_done hdone hcb).1)
  -- Whatever a node that is left touches below its inputs has been entered.
  have hinput : ∀ {m c ch}, cb = .leave m → c ∈ m.inputs → p.channel? c = some ch →
      .enter n ∉ p.callbacks ch.source := by
    rintro m c ch rfl hc hch hmem
    exact hnew ((ready_of_done hdone hcb).2 _ hc (p.callbacksOf_eq hch ▸ hmem))
  cases p.of_mem_entries hm he with
  | made m => exact hself htouch
  | @hosted m ch producer hfused =>
    obtain ⟨c, rest, hinputs, hch⟩ := hfused.input
    rcases htouch with hid | hid
    · exact hself hid
    · have hproducer : producer = n := by simpa [hid, hn] using hfused.source.symm
      refine hinput (c := c) rfl (by simp [hinputs]) hch ?_
      exact hproducer ▸ p.enter_mem_callbacks hfused.source hfused.not_union
  | wired hf hi hch hb =>
    have hc := List.mem_of_getElem? hi
    obtain ⟨-, ⟨g, hg, hgu⟩, hsub, -⟩ := p.mem_flat hch hb
    rcases htouch with hid | hid | hid
    · exact hself hid
    · obtain rfl : g = n := by simpa [hid, hn] using hg.symm
      exact hinput rfl hc hch (hsub (p.enter_mem_callbacks hg hgu))
    · obtain ⟨k, hk, -, hmem⟩ := p.exists_host hg hgu
      have hkn := heq (p.node_of_mem_callbacks hmem).1 (hk.trans hid)
      exact hinput rfl hc hch (hsub (hkn ▸ hmem))
  | described hf hi hch => exact hself htouch

/-- A node is settled when all callbacks of the walk from it are done. -/
theorem settled_of_done (hdone : done <+: p.schedule) {id : NodeId} {m : Node}
    (hm : p.node? id = some m) (hu : m.isUnion = false) (hsub : p.callbacks id ⊆ done) :
    p.Settled (p.journal done) id := by
  obtain ⟨g, hgid, hgf, hgmem⟩ := p.exists_host hm hu
  refine ⟨m, (mem_madeNodes_journal hdone).mpr (hsub (p.enter_mem_callbacks hm hu)), p.id_eq hm,
    fun hf => ?_, g, (mem_madeNodes_journal hdone).mpr (hsub hgmem), hgid, hgf⟩
  exact (mem_hostedNodes_journal hdone).mpr ⟨hsub (p.leave_mem_callbacks hm hu), hf⟩

/-! ## Section 2: One callback -/

variable {policy : SpillPolicy} {job : JobId} {s : State}

/-- What the visitor does in a callback. -/
def act (policy : SpillPolicy) (p : Plan) : Callback → EStateM CompileError State Unit
  | .enter n => forNode n .materialize (materialize policy p n)
  | .leave n => forNode n .wire (wire policy p n)

/-- The state shows what the callbacks that are done have built. -/
def Reaches (policy : SpillPolicy) (p : Plan) (job : JobId) (done : List Callback) : State → Prop :=
  p.Shows job (p.layoutAfter policy (p.journal done))

/-- When the turn of a callback comes, it adds its entries or its fault shows. -/
theorem act_runs {cb : Callback} (hdone : done ++ [cb] <+: p.schedule)
    (h : p.Reaches policy job done s) :
    Runs (act policy p cb) s (p.callbackFault? cb) (p.Reaches policy job (done ++ [cb])) := by
  -- The turn of the callback comes when all before it is done and it is not.
  obtain ⟨rest, hrest⟩ := hdone
  have hdone : done <+: p.schedule := ⟨cb :: rest, by simpa using hrest⟩
  have hsplit : p.schedule = done ++ cb :: rest := by simp [← hrest]
  obtain ⟨hnew, hready⟩ := p.ready_of_schedule hsplit
  obtain ⟨hn, hu, -⟩ := p.mem_schedule.mp (show cb ∈ p.schedule by simp [hsplit])
  simp only [Reaches, journal_concat]
  cases cb with
  | enter n =>
    refine Runs.adaptExcept _ (enter_runs (untouched_of_not_entered hdone hn hnew) h hn ?_ hu)
    have hnext : done ++ [.enter n] <+: p.schedule := ⟨rest, hrest⟩
    have hbegun := begun_of_done hnext
    rwa [journal_concat, madeNodes_append] at hbegun
  | leave n =>
    obtain ⟨hentered, hbelow⟩ := hready
    have hmade := (mem_madeNodes_journal hdone).mpr hentered
    have hunhosted : n ∉ hostedNodes (p.journal done) := fun hmem =>
      hnew ((mem_hostedNodes_journal hdone).mp hmem).1
    have hinputs : ∀ c ∈ n.inputs, ∃ ch, p.channel? c = some ch ∧ ∀ b ∈ p.flat ch,
        p.Settled (p.journal done) b.source ∧ p.rank b.source < p.rank n.id := by
      intro c hc
      obtain ⟨ch, hch, -⟩ := p.exists_channel hn hc
      refine ⟨ch, hch, fun b hb => ?_⟩
      obtain ⟨-, ⟨m, hm, hmu⟩, hsub, hrank⟩ := p.mem_flat hch hb
      have hbranch := List.Subset.trans hsub (p.callbacksOf_eq hch ▸ hbelow c hc)
      exact ⟨settled_of_done hdone hm hmu hbranch,
        Nat.lt_of_le_of_lt hrank (p.rank_lt_of_input hn hc hch)⟩
    exact Runs.adaptExcept _ (leave_runs h hmade hu hinputs hunhosted)

end Plan

end Dataflow
