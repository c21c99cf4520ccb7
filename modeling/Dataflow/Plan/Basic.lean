import Dataflow.Plan.Acyclic

/-! # Plans

    A plan is parts whose handles agree with the arenas and whose nodes form no
    cycle. Both are part of the type, so that every walk over a plan ends and
    every look-up of a listed channel finds it.

    Main statements:
    - `rank_lt_of_input`: producers rank below their consumers
-/

namespace Dataflow

/-- A plan: an acyclic graph of nodes and channels, and the settings of the job. -/
structure Plan extends Plan.Parts where
  /-- The handles agree with the arenas. -/
  consistent : toParts.Consistent
  /-- No node feeds itself, directly or through others. -/
  acyclic : toParts.Acyclic

namespace Plan

-- The empty sum is the zero of the core library, whatever else is imported.
attribute [local instance (high)] Zero.ofOfNat0

/-- The plan of parts, or the first fault: of the handles, and then a cycle. -/
def ofParts (q : Parts) : Except Fault Plan :=
  match hq : q.inconsistency? with
  | some fault => .error fault
  | none =>
    have consistent := q.inconsistency?_eq_none_iff.mp hq
    match h : q.listing with
    | .error n => .error (.cycle n)
    | .ok _ => .ok { q with consistent, acyclic := Parts.acyclic_of_listing consistent h }

/-- A plan made of parts has these parts. -/
theorem toParts_of_ofParts {q : Parts} {p : Plan} (h : ofParts q = .ok p) : p.toParts = q := by
  unfold ofParts at h
  split at h
  · simp at h
  · simp only at h
    split at h
    · simp at h
    · injection h with h
      rw [← h]

/-- Parts that a plan is made of make this plan. -/
theorem ofParts_toParts (p : Plan) {l : List NodeId} (h : p.toParts.listing = .ok l) :
    ofParts p.toParts = .ok p := by
  have hnone := p.toParts.inconsistency?_eq_none_iff.mpr p.consistent
  unfold ofParts
  split
  · rename_i fault hfault
    rw [hnone] at hfault
    simp at hfault
  · simp only
    split
    · rename_i n hn
      rw [h] at hn
      simp at hn
    · rfl

/-- A ranking of the nodes in which producers rank below their consumers. -/
noncomputable def rank (p : Plan) : NodeId → Nat := Classical.choose p.acyclic

theorem rank_lt_of_feeds (p : Plan) {producer consumer : NodeId} (h : p.Feeds producer consumer) :
    p.rank producer < p.rank consumer :=
  Classical.choose_spec p.acyclic producer consumer h

/-- The source of an input channel ranks below the node. -/
theorem rank_lt_of_input (p : Plan) {id : NodeId} {n : Node} (hn : p.node? id = some n)
    {c : ChannelId} (hc : c ∈ n.inputs) {ch : Channel} (hch : p.channel? c = some ch) :
    p.rank ch.source < p.rank id := by
  refine p.rank_lt_of_feeds ⟨c, ?_, ?_⟩
  · simpa [Parts.inputsOf, hn] using hc
  · simp [Parts.source?, hch]

/-- The number of steps of a walk from a node that enters every node that it reaches: one for each
time it enters a node, and one for each channel that it follows. -/
noncomputable def work (p : Plan) (id : NodeId) : Nat :=
  match hn : p.node? id with
  | none => 0
  | some n =>
    1 + (n.inputs.attach.map fun ⟨c, hc⟩ =>
      match hch : p.channel? c with
      | none => 1
      | some ch =>
        have := p.rank_lt_of_input hn hc hch
        1 + p.work ch.source).sum
termination_by p.rank id

/-- The steps of a walk that follows one channel. -/
noncomputable def channelWork (p : Plan) (c : ChannelId) : Nat :=
  match p.channel? c with
  | none => 1
  | some ch => 1 + p.work ch.source

theorem work_eq (p : Plan) {id : NodeId} {n : Node} (hn : p.node? id = some n) :
    p.work id = 1 + (n.inputs.map p.channelWork).sum := by
  rw [work]
  split
  · simp_all
  · rename_i n' hn'
    rw [hn] at hn'
    injection hn' with hn'
    subst hn'
    congr 2
    conv => rhs; rw [← List.attach_map_subtype_val n.inputs, List.map_map]
    apply List.map_congr_left
    rintro ⟨c, hc⟩ _
    simp only [Function.comp, channelWork]
    split <;> rename_i h <;> simp [h]

end Plan

end Dataflow
