import Mathlib.Data.List.Induction
import Dataflow.Proofs.Layout

/-! # Making vertices and chains

    The node that a walk enters next gets the next number among the vertices or
    the chains, and this is the number that the schedule gives it. The anchor
    moves to the new vertex exactly if it leads.

    Main statements:
    - `Shows.makeVertex`: the next node gets its vertex
    - `Shows.makeChain`: the next node gets its chain
-/

namespace Dataflow

namespace Plan

open Lowering

variable {p : Plan} {job : JobId} {l : Layout} {s : State}

theorem outcome?_settle (s : State) {id : NodeId} (hid : id.index < s.outcomes.size) (o : Outcome)
    (id' : NodeId) : (s.settle id o).outcome? id' = if id' = id then some o else s.outcome? id' := by
  simp only [State.settle, State.outcome?, Array.getElem?_setIfInBounds]
  by_cases h : id.index = id'.index
  · rw [if_pos h, if_pos hid, if_pos (Parts.eq_of_index_eq h.symm)]
    rfl
  · rw [if_neg h, if_neg fun heq => h (congrArg Handle.index heq).symm]

theorem ne_of_begun {made : List Node} {n : Node} (h : made ++ [n] <+: p.entered) {m : Node}
    (hm : m ∈ made) : m.id ≠ n.id := by
  have hnodup : ((made ++ [n]).map Node.id).Nodup :=
    (h.sublist.map _).nodup (p.nodup_ids p.nodup_entered fun n hn => (p.mem_entered.mp hn).1)
  rw [List.map_append, List.nodup_append] at hnodup
  exact hnodup.2.2 m.id (List.mem_map_of_mem hm) n.id (by simp)

/-- A node that is made next gets the next number. -/
theorem position_of_begun {made : List Node} {n : Node} (h : made ++ [n] <+: p.entered)
    (f : Node → Bool) (hf : f n = true) :
    position (p.entered.filter f) n.id = (made.filter f).length := by
  -- It is the last one that is made, so its number is how many there were before.
  have hget := p.getElem?_of_begun h f (n := n) (by simp) hf
  have hlast : ((made ++ [n]).filter f)[(made.filter f).length]? = some n := by
    simp [List.filter_append, hf]
  have hnodup : (((made ++ [n]).filter f).map Node.id).Nodup :=
    ((h.filter f).sublist.map _).nodup (p.nodup_ids_filter f)
  exact index_injective hnodup hget hlast rfl

theorem outcomeOf_concat (made : List Node) (n : Node) (hne : ∀ m ∈ made, m.id ≠ n.id)
    (id : NodeId) : p.outcomeOf (made ++ [n]) id = if id = n.id then
      some (if p.fuses n then .fused (p.chainOf n.id) else .vertex (p.vertexOf n.id))
      else p.outcomeOf made id := by
  unfold outcomeOf
  rw [List.find?_append]
  by_cases hid : id = n.id
  · subst hid
    have : made.find? (fun m => decide (m.id = n.id)) = none :=
      List.find?_eq_none.mpr fun m hm => by simpa using hne m hm
    simp [this]
  · have : [n].find? (fun m => decide (m.id = id)) = none :=
      List.find?_eq_none.mpr fun m hm => by
        obtain rfl := List.mem_singleton.mp hm
        simpa using Ne.symm hid
    rw [this, Option.or_none, if_neg hid]

/-- One more element of an array goes with one more element of the list that it is the image of. -/
theorem getElem?_push_image {α β : Type} {a : Array β} {l : List α} {f : α → β} (f' : α → β) {x : α}
    (h : ∀ i : Nat, a[i]? = (l[i]?).map f) (hf : ∀ y ∈ l, f' y = f y) (i : Nat) :
    (a.push (f' x))[i]? = ((l ++ [x])[i]?).map f' := by
  have ha : a.toList = l.map f := List.ext_getElem? fun i => by simpa using h i
  have hpush : (a.push (f' x)).toList = (l ++ [x]).map f' := by
    rw [Array.toList_push, ha, List.map_append, List.map_congr_left hf]
    rfl
  rw [← Array.getElem?_toList, hpush, List.getElem?_map]

theorem size_eq_of_getElem? {α β : Type} {a : Array β} {l : List α} {f : α → β}
    (h : ∀ i : Nat, a[i]? = (l[i]?).map f) : a.size = l.length := by
  have : a.toList = l.map f := List.ext_getElem? fun i => by simpa using h i
  simpa using congrArg List.length this

theorem leading_concat (nodes : List Node) (n : Node) : leading (nodes ++ [n]) =
    match leading nodes with
    | none => some n
    | some m => if m.parallelism < n.parallelism then some n else some m := by
  unfold leading
  rw [List.foldl_append]
  rfl

theorem leading_eq_none_iff (nodes : List Node) : leading nodes = none ↔ nodes = [] := by
  induction nodes using List.reverseRecOn with
  | nil => simp [leading]
  | append_singleton nodes n ih =>
    rw [leading_concat]
    split
    · simp
    · split <;> simp

theorem getElem?_concat_eq_some {α : Type} {l : List α} {x y : α} {i : Nat}
    (h : (l ++ [x])[i]? = some y) : l[i]? = some y ∨ i = l.length ∧ y = x := by
  by_cases hi : i < l.length
  · rw [List.getElem?_append_left hi] at h
    exact .inl h
  · rw [List.getElem?_append_right (by omega), List.getElem?_singleton] at h
    split at h
    · exact .inr ⟨by omega, (Option.some.inj h).symm⟩
    · simp at h

/-- The node that leads is the first one of the greatest parallelism. -/
theorem leading_first {nodes : List Node} {m : Node} (h : leading nodes = some m) :
    ∃ i : Nat, nodes[i]? = some m ∧ ∀ (j : Nat) (n : Node), nodes[j]? = some n →
      n.parallelism ≤ m.parallelism ∧ (n.parallelism = m.parallelism → i ≤ j) := by
  induction nodes using List.reverseRecOn generalizing m with
  | nil => simp [leading] at h
  | append_singleton nodes k ih =>
    rw [leading_concat] at h
    cases hbest : leading nodes with
    | none =>
      obtain rfl := (leading_eq_none_iff nodes).mp hbest
      obtain rfl : k = m := by simpa [leading] using h
      refine ⟨0, rfl, fun j n hn => ?_⟩
      obtain rfl : n = k := by simpa using List.mem_of_getElem? hn
      exact ⟨UInt32.le_refl _, fun _ => Nat.zero_le j⟩
    | some best =>
      obtain ⟨i, hi, hfirst⟩ := ih hbest
      have hlt := (List.getElem?_eq_some_iff.mp hi).1
      simp only [hbest] at h
      -- The last node leads only if it outdoes the one that led before it.
      by_cases hk : best.parallelism < k.parallelism
      · obtain rfl : k = m := by simpa [hk] using h
        refine ⟨nodes.length, by simp, fun j n hn => ?_⟩
        rcases getElem?_concat_eq_some hn with hn | ⟨rfl, rfl⟩
        · have hn := UInt32.lt_of_le_of_lt (hfirst j n hn).1 hk
          exact ⟨UInt32.le_of_lt hn, fun heq => absurd heq (UInt32.ne_of_lt hn)⟩
        · exact ⟨UInt32.le_refl _, fun _ => Nat.le_refl _⟩
      · obtain rfl : best = m := by simpa [hk] using h
        refine ⟨i, by rw [List.getElem?_append_left hlt, hi], fun j n hn => ?_⟩
        rcases getElem?_concat_eq_some hn with hn | ⟨rfl, rfl⟩
        · exact hfirst j n hn
        · exact ⟨UInt32.not_lt.mp hk, fun _ => Nat.le_of_lt hlt⟩

theorem leading_mem {nodes : List Node} {m : Node} (h : leading nodes = some m) : m ∈ nodes := by
  obtain ⟨i, hi, -⟩ := leading_first h
  exact List.mem_of_getElem? hi

/-- No node has a greater parallelism than the one that leads. -/
theorem le_of_leading {nodes : List Node} {m n : Node} (h : leading nodes = some m) (hn : n ∈ nodes) :
    n.parallelism ≤ m.parallelism := by
  obtain ⟨i, -, hfirst⟩ := leading_first h
  obtain ⟨j, hj⟩ := List.mem_iff_getElem?.mp hn
  exact (hfirst j n hj).1

/-- The layout with one more node, which has no wires yet. -/
def Layout.make (l : Layout) (n : Node) (config : TaskConfig) : Layout :=
  { l with
    made := l.made ++ [n]
    config := fun m => if m = n then config else l.config m
    wires := fun m => if m = n then [] else l.wires m }

theorem vertexIn_make {n m : Node} (hne : m ≠ n) (config : TaskConfig) :
    p.vertexIn (l.make n config) m = p.vertexIn l m := by
  simp [vertexIn, Layout.make, hne]

theorem chainIn_make {n m : Node} (hne : m ≠ n) (config : TaskConfig) :
    p.chainIn (l.make n config) m = p.chainIn l m := by
  simp only [chainIn, Layout.make, if_neg hne]
  rfl

/-- The next vertex becomes the anchor exactly if its node leads. -/
theorem Shows.anchor_concat (h : p.Shows job l s) (n : Node) :
    (leading ((l.made.filter fun n => !p.fuses n) ++ [n])).map (fun m => p.vertexOf m.id) =
      if s.takesAnchor n.parallelism then some (p.vertexOf n.id) else s.anchor := by
  rw [leading_concat, State.takesAnchor, h.anchor]
  cases hm : leading (l.made.filter fun n => !p.fuses n) with
  | none => rfl
  | some m =>
    obtain ⟨hmem, hf⟩ := List.mem_filter.mp (leading_mem hm)
    have hf : p.fuses m = false := by simpa using hf
    simp only [Option.map_some, h.vertex?_eq hmem hf, vertexIn, decide_eq_true_iff]
    by_cases hlt : m.parallelism < n.parallelism
    · rw [if_pos hlt, if_pos hlt]
      rfl
    · rw [if_neg hlt, if_neg hlt]
      rfl

section
variable {n : Node} (h : p.Shows job l s) (hn : p.node? n.id = some n)
  (hbegun : l.made ++ [n] <+: p.entered)
include h hn hbegun

/-- A node becomes what it is made. -/
theorem Shows.settle (id : NodeId) :
    (s.settle n.id (if p.fuses n then .fused (p.chainOf n.id) else .vertex (p.vertexOf n.id))).outcome?
      id = p.outcomeOf (l.made ++ [n]) id := by
  have hsize : n.id.index < s.outcomes.size :=
    h.size ▸ (Array.getElem?_eq_some_iff.mp hn).1
  rw [outcome?_settle s hsize, outcomeOf_concat _ _ fun m => ne_of_begun hbegun, h.outcome id]

/-- A node that is not fused gets the next vertex. -/
theorem Shows.makeVertex (hf : p.fuses n = false) (config : TaskConfig) :
    ∃ s', makeVertex n (vertexKind n) (taskClass n) config s = .ok () s' ∧
      p.Shows job (l.make n config) s' := by
  have hne : ∀ m ∈ l.made, m ≠ n := fun m hm heq => ne_of_begun hbegun hm (congrArg Node.id heq)
  have hlen : s.graph.vertices.size = (l.made.filter fun n => !p.fuses n).length :=
    size_eq_of_getElem? fun i => h.vertex ⟨i⟩
  have hnum : p.vertexOf n.id = ⟨s.graph.vertices.size⟩ := by
    rw [hlen]
    exact congrArg Handle.mk (position_of_begun hbegun (fun n => !p.fuses n) (by simp [hf]))
  have hown : (l.made ++ [n]).filter (fun n => !p.fuses n) =
      (l.made.filter fun n => !p.fuses n) ++ [n] := by
    simp [List.filter_append, hf]
  have hfused : (l.made ++ [n]).filter p.fuses = l.made.filter p.fuses := by
    simp [List.filter_append, hf]
  refine ⟨_, rfl, Shows.report ?_ _⟩
  refine {
    begun := hbegun
    size := by simpa [State.settle] using h.size
    outcome := fun id => ?_
    vertex := fun id => ?_
    chain := fun id => ?_
    resolved := h.resolved
    anchor := ?_
    job := h.job
    name := h.name
    config := h.config }
  -- What became of the node, the vertices with the new one, the old chains, and the anchor.
  · have := h.settle hn hbegun id
    rw [hf, if_neg (by simp), hnum] at this
    exact this
  · have hmap := getElem?_push_image (p.vertexIn (l.make n config)) (x := n)
      (fun i => h.vertex ⟨i⟩) (fun m hm => ?_) id.index
    · simp only [Layout.make, hown]
      refine Eq.trans ?_ hmap
      simp [State.settle, JobGraph.push, JobGraph.vertex?, vertexIn, Layout.make, hnum]
    · exact vertexIn_make (hne m (List.mem_filter.mp hm).1) config
  · simp only [Layout.make, hfused]
    refine (h.chain id).trans ?_
    cases hm : (l.made.filter p.fuses)[id.index]? with
    | none => rfl
    | some m =>
      have hmn := hne m (List.mem_filter.mp (List.mem_of_getElem? hm)).1
      exact congrArg some (chainIn_make hmn config).symm
  · simp only [Layout.make, hown, h.anchor_concat, hnum]
    rfl

/-- A fused node gets the next chain. -/
theorem Shows.makeChain (hf : p.fuses n = true) (hres : n ∉ l.resolved) (config : TaskConfig) :
    ∃ s', makeChain n (pushDriver n) config s = .ok () s' ∧ p.Shows job (l.make n config) s' := by
  have hne : ∀ m ∈ l.made, m ≠ n := fun m hm heq => ne_of_begun hbegun hm (congrArg Node.id heq)
  have hlen : s.chains.size = (l.made.filter p.fuses).length :=
    size_eq_of_getElem? fun i => h.chain ⟨i⟩
  have hnum : p.chainOf n.id = ⟨s.chains.size⟩ := by
    rw [hlen]
    exact congrArg Handle.mk (position_of_begun hbegun p.fuses hf)
  have hfused : (l.made ++ [n]).filter p.fuses = l.made.filter p.fuses ++ [n] := by
    simp [List.filter_append, hf]
  have hown : (l.made ++ [n]).filter (fun n => !p.fuses n) =
      l.made.filter fun n => !p.fuses n := by
    simp [List.filter_append, hf]
  refine ⟨_, rfl, Shows.report ?_ _⟩
  refine {
    begun := hbegun
    size := by simpa [State.settle] using h.size
    outcome := fun id => ?_
    vertex := fun id => ?_
    chain := fun id => ?_
    resolved := h.resolved
    anchor := ?_
    job := h.job
    name := h.name
    config := h.config }
  · have := h.settle hn hbegun id
    rw [hf, if_pos rfl, hnum] at this
    exact this
  · simp only [Layout.make, hown]
    refine (h.vertex id).trans ?_
    cases hm : (l.made.filter fun n => !p.fuses n)[id.index]? with
    | none => rfl
    | some m =>
      have hmn := hne m (List.mem_filter.mp (List.mem_of_getElem? hm)).1
      exact congrArg some (vertexIn_make hmn config).symm
  · have hmap := getElem?_push_image (p.chainIn (l.make n config)) (x := n)
      (fun i => h.chain ⟨i⟩) (fun m hm => ?_) id.index
    · simp only [Layout.make, hfused]
      refine Eq.trans ?_ hmap
      simp [State.settle, State.chain?, chainIn, Layout.make, hres]
    · exact chainIn_make (hne m (List.mem_filter.mp hm).1) config
  · simp only [Layout.make, hown]
    exact h.anchor

end

end Plan

end Dataflow
