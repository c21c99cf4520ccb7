import Mathlib.Data.Finset.Card
import Mathlib.Logic.Relation
import Dataflow.Proofs.Admission

/-! # Cycles

    A cycle is a way from a node against the flow of records that comes back to
    it. Parts whose handles agree with the arenas have finitely many nodes that
    feed others, so that without a cycle the number of nodes from which a node
    can be reached ranks it above its producers.

    Main statement:
    - `acyclic_iff`: nodes can be ranked exactly if there is no cycle
-/

namespace Dataflow

namespace Plan

namespace Parts

/-- Nodes `n 0, n 1, …, n k`, at least two of them, each fed by the next, the last one the first. -/
def Cyclic (q : Parts) : Prop :=
  ∃ (k : Nat) (n : Nat → NodeId), 1 ≤ k ∧ n k = n 0 ∧ ∀ j < k, q.Feeds (n (j + 1)) (n j)

variable {q : Parts}

/-! ## Section 1: Ways through a plan -/

/-- One node feeds another, directly or through others. -/
abbrev FeedsThrough (q : Parts) : NodeId → NodeId → Prop := Relation.TransGen q.Feeds

/-- A way against the flow says what feeds its first node. -/
theorem feedsThrough_of_way {n : Nat → NodeId} {k : Nat} (hk : 1 ≤ k)
    (hway : ∀ j < k, q.Feeds (n (j + 1)) (n j)) : q.FeedsThrough (n k) (n 0) := by
  induction k, hk using Nat.le_induction with
  | base => exact .single (hway 0 Nat.one_pos)
  | succ k _ ih =>
    have hrest := ih fun j hj => hway j (Nat.lt_succ_of_lt hj)
    exact .head (hway k (Nat.lt_succ_self k)) hrest

/-- What feeds a node is at the end of a way against the flow. -/
theorem exists_way {producer consumer : NodeId} (h : q.FeedsThrough producer consumer) :
    ∃ (k : Nat) (n : Nat → NodeId), 1 ≤ k ∧ n 0 = consumer ∧ n k = producer ∧
      ∀ j < k, q.Feeds (n (j + 1)) (n j) := by
  induction h with
  | @single m hfeeds =>
    refine ⟨1, fun j => if j = 0 then m else producer, Nat.le_refl 1, rfl, rfl, fun j hj => ?_⟩
    obtain rfl := Nat.lt_one_iff.mp hj
    exact hfeeds
  | @tail b m _ hfeeds ih =>
    obtain ⟨k, n, -, hfirst, hlast, hway⟩ := ih
    -- The way starts one node further down the flow.
    refine ⟨k + 1, Nat.rec m fun j _ => n j, Nat.le_add_left 1 k, rfl, hlast, fun j hj => ?_⟩
    cases j with
    | zero =>
      show q.Feeds (n 0) m
      rw [hfirst]
      exact hfeeds
    | succ j => exact hway j (Nat.lt_of_succ_lt_succ hj)

/-- There is a cycle exactly if some node feeds itself. -/
theorem cyclic_iff : q.Cyclic ↔ ∃ n, q.FeedsThrough n n := by
  constructor
  · rintro ⟨k, n, hk, hclosed, hway⟩
    have hfeeds := feedsThrough_of_way hk hway
    rw [hclosed] at hfeeds
    exact ⟨n 0, hfeeds⟩
  · rintro ⟨m, hfeeds⟩
    obtain ⟨k, n, hk, hfirst, hlast, hway⟩ := exists_way hfeeds
    exact ⟨k, n, hk, hlast.trans hfirst.symm, hway⟩

/-! ## Section 2: Ranks -/

theorem rank_lt_of_feedsThrough {rank : NodeId → Nat}
    (hrank : ∀ producer consumer, q.Feeds producer consumer → rank producer < rank consumer)
    {producer consumer : NodeId} (h : q.FeedsThrough producer consumer) :
    rank producer < rank consumer := by
  induction h with
  | single hfeeds => exact hrank _ _ hfeeds
  | tail _ hfeeds ih => exact ih.trans (hrank _ _ hfeeds)

/-- A node that feeds others is one of the arena. -/
theorem Consistent.index_lt_of_feedsThrough (hq : q.Consistent) {producer consumer : NodeId}
    (h : q.FeedsThrough producer consumer) : producer.index < q.nodes.size := by
  obtain ⟨m, hfeeds, -⟩ := Relation.TransGen.head'_iff.mp h
  obtain ⟨c, -, hsource⟩ := hfeeds
  obtain ⟨ch, hch, rfl⟩ := Option.map_eq_some_iff.mp hsource
  exact hq.source_lt ch (Array.mem_of_getElem? hch)

open Classical in
/-- The positions of the nodes that feed a node, directly or through others. -/
noncomputable def sources (q : Parts) (n : NodeId) : Finset Nat :=
  (Finset.range q.nodes.size).filter fun i => q.FeedsThrough ⟨i⟩ n

theorem Consistent.mem_sources (hq : q.Consistent) {m n : NodeId} :
    m.index ∈ q.sources n ↔ q.FeedsThrough m n := by
  classical
  rw [sources, Finset.mem_filter, Finset.mem_range]
  exact ⟨fun h => h.2, fun h => ⟨hq.index_lt_of_feedsThrough h, h⟩⟩

/-- Without a cycle a node has more sources than each of its producers, which is itself one more. -/
theorem Consistent.sources_ssubset (hq : q.Consistent) (hcyclic : ¬ q.Cyclic)
    {producer consumer : NodeId} (h : q.Feeds producer consumer) :
    q.sources producer ⊂ q.sources consumer := by
  refine Finset.ssubset_iff_subset_ne.mpr ⟨fun i hi => ?_, fun heq => ?_⟩
  · have hfeeds := (hq.mem_sources (m := ⟨i⟩)).mp hi
    exact (hq.mem_sources (m := ⟨i⟩)).mpr (hfeeds.tail h)
  · have hmem := hq.mem_sources.mpr (.single h)
    rw [← heq] at hmem
    exact hcyclic (cyclic_iff.mpr ⟨producer, hq.mem_sources.mp hmem⟩)

/-- Nodes can be ranked, producers below their consumers, exactly if there is no cycle. -/
theorem Consistent.acyclic_iff (hq : q.Consistent) : q.Acyclic ↔ ¬ q.Cyclic := by
  constructor
  · rintro ⟨rank, hrank⟩ hcyclic
    obtain ⟨n, hfeeds⟩ := cyclic_iff.mp hcyclic
    exact Nat.lt_irrefl _ (rank_lt_of_feedsThrough hrank hfeeds)
  · intro hcyclic
    exact ⟨fun n => (q.sources n).card, fun producer consumer h =>
      Finset.card_lt_card (hq.sources_ssubset hcyclic h)⟩

end Parts

end Plan

end Dataflow
