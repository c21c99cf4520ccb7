import Dataflow.Plan.Basic

/-! # Parts that are accepted

    The search for a cycle fails on a cycle only. The nodes that are being
    followed stand on its stack, each ranked below the one that asked for it,
    so that a node that is reached again would rank below itself. Consistent
    parts without a cycle are therefore accepted, wherever the search starts and
    in whatever order it goes.

    Main statements:
    - `exists_follow`: a search without a cycle ends, and nothing is being
      followed then
    - `exists_plan`: consistent parts without a cycle make a plan
-/

namespace Dataflow

namespace Plan

namespace Parts

/-! ## Section 1: What the search keeps without a cycle -/

/-- What is being followed ranks lower from frame to frame. -/
structure Descending (q : Parts) (rank : NodeId → Nat) (marks : Array Mark)
    (stack : List Frame) : Prop where
  /-- What is being followed is on the stack. -/
  active : ActiveOn marks stack
  /-- A frame ranks below those under it. -/
  ranked : stack.Pairwise fun f g => rank f.node < rank g.node
  /-- What is pending at a frame are inputs of its node. -/
  pending : ∀ f ∈ stack, f.pending ⊆ q.inputsOf f.node

variable {q : Parts} {rank : NodeId → Nat} {marks : Array Mark} {stack : List Frame}
  {n producer : NodeId} {c : ChannelId} {rest : List ChannelId}

/-- The frame on top has the lowest rank. -/
theorem Descending.top_le {f g : Frame} (h : q.Descending rank marks (f :: stack))
    (hg : g ∈ f :: stack) : rank f.node ≤ rank g.node := by
  rcases List.mem_cons.mp hg with rfl | hg
  · exact Nat.le_refl _
  · exact Nat.le_of_lt ((List.pairwise_cons.mp h.ranked).1 g hg)

/-- The source of an input that is pending on top feeds the node on top. -/
theorem Descending.feeds (h : q.Descending rank marks (⟨n, c :: rest⟩ :: stack))
    (hsource : q.source? c = some producer) : q.Feeds producer n :=
  ⟨c, h.pending _ (List.mem_cons_self ..) (List.mem_cons_self ..), hsource⟩

theorem Descending.finish (h : q.Descending rank marks (⟨n, []⟩ :: stack)) :
    q.Descending rank (marks.setIfInBounds n.index .done) stack where
  active := h.active.finish
  ranked := (List.pairwise_cons.mp h.ranked).2
  pending f hf := h.pending f (List.mem_cons_of_mem _ hf)

theorem Descending.skip (h : q.Descending rank marks (⟨n, c :: rest⟩ :: stack)) :
    q.Descending rank marks (⟨n, rest⟩ :: stack) where
  active := h.active.skip
  ranked := List.pairwise_cons.mpr (List.pairwise_cons.mp h.ranked)
  pending f hf := by
    rcases List.mem_cons.mp hf with rfl | hf
    · exact List.Subset.trans (List.subset_cons_self ..) (h.pending _ (List.mem_cons_self ..))
    · exact h.pending f (List.mem_cons_of_mem _ hf)

/-- A node of a lower rank may be followed next. -/
theorem Descending.push (h : q.Descending rank marks stack)
    (hlow : ∀ f ∈ stack, rank producer < rank f.node) :
    q.Descending rank (marks.setIfInBounds producer.index .active)
      (⟨producer, q.inputsOf producer⟩ :: stack) where
  active := h.active.push producer _
  ranked := List.pairwise_cons.mpr ⟨hlow, h.ranked⟩
  pending f hf := by
    rcases List.mem_cons.mp hf with rfl | hf
    · exact List.Subset.refl _
    · exact h.pending f hf

/-! ## Section 2: The search ends -/

section
variable (hrank : ∀ producer consumer, q.Feeds producer consumer → rank producer < rank consumer)
include hrank

/-- A search without a cycle ends, and nothing is being followed then. -/
theorem exists_follow (finished : List NodeId) (h : q.Descending rank marks stack) :
    ∃ marks' finished', q.follow marks finished stack = .ok (marks', finished') ∧
      q.Descending rank marks' [] := by
  fun_induction follow q marks finished stack with
  | case1 marks finished => exact ⟨marks, finished, rfl, h⟩
  | case2 marks finished n stack ih => exact ih h.finish
  | case3 marks finished n c rest stack hsource ih => exact ih h.skip
  | case4 marks finished n c rest stack producer hsource hmark =>
    -- A node that is reached again is on the stack, where nothing ranks below the top.
    obtain ⟨f, hf, rfl⟩ := h.active producer hmark
    exact absurd (hrank _ _ (h.feeds hsource)) (Nat.not_lt.mpr (h.top_le hf))
  | case5 marks finished n c rest stack producer hsource hmark ih =>
    have hlt := hrank _ _ (h.feeds hsource)
    exact ih (h.skip.push fun f hf => Nat.lt_of_lt_of_le hlt (h.skip.top_le hf))
  | case6 marks finished n c rest stack producer hsource hmark ih => exact ih h.skip
  | case7 marks finished n c rest stack producer hsource hmark ih => exact ih h.skip

/-- A search from several nodes without a cycle ends. -/
theorem exists_followAll (finished starts : List NodeId) (h : q.Descending rank marks []) :
    ∃ l, q.followAll marks finished starts = .ok l := by
  induction starts generalizing marks finished with
  | nil => exact ⟨finished, rfl⟩
  | cons start rest ih =>
    rw [followAll]
    split
    · have hpush : q.Descending rank (marks.setIfInBounds start.index .active)
          [⟨start, q.inputsOf start⟩] := h.push (by simp)
      obtain ⟨marks', finished', hok, h'⟩ := exists_follow hrank finished hpush
      simp only [hok]
      exact ih finished' h'
    · exact ih finished h

end

/-- Parts without a cycle have a listing. -/
theorem exists_listing (h : q.Acyclic) : ∃ l, q.listing = .ok l := by
  obtain ⟨rank, hrank⟩ := h
  exact exists_followAll hrank [] _ {
    active := activeOn_fresh _
    ranked := .nil
    pending := by simp }

end Parts

/-! ## Section 3: Parts that make a plan -/

/-- Consistent parts without a cycle make a plan. -/
theorem exists_plan {q : Parts} (hq : q.Consistent) (h : q.Acyclic) :
    ∃ p, ofParts q = .ok p ∧ p.toParts = q := by
  obtain ⟨l, hl⟩ := Parts.exists_listing h
  exact ⟨⟨q, hq, h⟩, ofParts_toParts ⟨q, hq, h⟩ hl, rfl⟩

end Plan

end Dataflow
