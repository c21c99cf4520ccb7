import Dataflow.Plan.Consistency

/-! # Search for a cycle

    Depth-first search over the inputs of all nodes, with an explicit stack, so
    that deep plans are no different from flat ones. It ends at the first node
    that is reached while its own inputs are being followed, or with a listing
    of all nodes in which every node comes after its producers.

    Main statement:
    - `acyclic_of_listing`: a plan for which the search gives a listing has no
      cycle
-/

namespace Dataflow

namespace Plan

-- The empty sum is the zero of the core library, whatever else is imported.
attribute [local instance (high)] Zero.ofOfNat0

/-! ## Section 1: The search -/

/-- What the search knows about a node. -/
inductive Mark where
  /-- It has not been reached. -/
  | fresh
  /-- Its inputs are being followed. -/
  | active
  /-- All its inputs have been followed. -/
  | done
deriving DecidableEq

/-- A node whose inputs are being followed. -/
structure Frame where
  /-- The node. -/
  node : NodeId
  /-- Its inputs that are still to be followed. -/
  pending : List ChannelId

/-- The inputs to be followed and the nodes to be finished on a stack. -/
def stackWork (stack : List Frame) : Nat := (stack.map fun f => f.pending.length + 1).sum

theorem count_fresh_set_le (marks : Array Mark) (i : Nat) {m : Mark} (h : m ≠ .fresh) :
    (marks.setIfInBounds i m).count .fresh ≤ marks.count .fresh := by
  unfold Array.setIfInBounds
  split
  · rw [Array.count_set]
    simp only [beq_iff_eq, h, if_false]
    omega
  · exact Nat.le_refl _

theorem count_fresh_set_lt (marks : Array Mark) (i : Nat) {m : Mark} (h : m ≠ .fresh)
    (hi : marks[i]? = some .fresh) :
    (marks.setIfInBounds i m).count .fresh < marks.count .fresh := by
  obtain ⟨hlt, hget⟩ := Array.getElem?_eq_some_iff.mp hi
  have hpos : 0 < marks.count .fresh := by
    rw [Array.count_pos_iff]
    exact hget ▸ Array.getElem_mem hlt
  unfold Array.setIfInBounds
  rw [dif_pos hlt, Array.count_set]
  simp only [hget, beq_iff_eq, h, if_true, if_false]
  omega

namespace Parts

/-- Follows the inputs on a stack. Answers the marks and the finished nodes, last first, or the node
that closes a cycle. -/
def follow (q : Parts) (marks : Array Mark) (finished : List NodeId) :
    List Frame → Except NodeId (Array Mark × List NodeId)
  | [] => .ok (marks, finished)
  | ⟨n, []⟩ :: stack => q.follow (marks.setIfInBounds n.index .done) (n :: finished) stack
  | ⟨n, c :: rest⟩ :: stack =>
    match q.source? c with
    | none => q.follow marks finished (⟨n, rest⟩ :: stack)
    | some producer =>
      match _ : marks[producer.index]? with
      | some .active => .error producer
      | some .fresh =>
        q.follow (marks.setIfInBounds producer.index .active) finished
          (⟨producer, q.inputsOf producer⟩ :: ⟨n, rest⟩ :: stack)
      | some .done => q.follow marks finished (⟨n, rest⟩ :: stack)
      | none => q.follow marks finished (⟨n, rest⟩ :: stack)
termination_by stack => (marks.count .fresh, stackWork stack)
decreasing_by
  · exact Prod.Lex.right' _ (count_fresh_set_le _ _ (by simp)) (by simp [stackWork])
  · exact Prod.Lex.right _ (by simp [stackWork])
  · exact Prod.Lex.left _ _ (count_fresh_set_lt _ _ (by simp) (by assumption))
  · exact Prod.Lex.right _ (by simp [stackWork])
  · exact Prod.Lex.right _ (by simp [stackWork])

/-- Follows the inputs of every node in a list that has not been reached yet. -/
def followAll (q : Parts) (marks : Array Mark) (finished : List NodeId) :
    List NodeId → Except NodeId (List NodeId)
  | [] => .ok finished
  | start :: rest =>
    if marks[start.index]? = some .fresh then
      match q.follow (marks.setIfInBounds start.index .active) finished
          [⟨start, q.inputsOf start⟩] with
      | .error n => .error n
      | .ok (marks, finished) => q.followAll marks finished rest
    else q.followAll marks finished rest

/-- The handles of all nodes, in order. -/
def nodeIds (q : Parts) : List NodeId := (List.range q.nodes.size).map Handle.mk

/-- All nodes, consumers before their producers, or the node that closes a cycle. -/
def listing (q : Parts) : Except NodeId (List NodeId) :=
  q.followAll (Array.replicate q.nodes.size .fresh) [] q.nodeIds

/-! ## Section 2: Listings -/

/-- In a list every node comes before all that feed it, and those are in the list. -/
def Listed (q : Parts) : List NodeId → Prop
  | [] => True
  | n :: rest => (∀ producer, q.Feeds producer n → producer ∈ rest) ∧ q.Listed rest

/-- The number of nodes from the last occurrence of a node to the end of a list. -/
def height : List NodeId → NodeId → Nat
  | [], _ => 0
  | _ :: rest, n => if n ∈ rest then height rest n else rest.length + 1

theorem height_le_length (l : List NodeId) (n : NodeId) : height l n ≤ l.length := by
  induction l with
  | nil => simp [height]
  | cons x rest ih =>
    simp only [height, List.length_cons]
    split <;> omega

theorem Listed.mem {q : Parts} {l : List NodeId} (h : q.Listed l) {n producer : NodeId}
    (hn : n ∈ l) (hf : q.Feeds producer n) : producer ∈ l := by
  induction l with
  | nil => simp at hn
  | cons x rest ih =>
    rcases List.mem_cons.mp hn with rfl | hn
    · exact List.mem_cons_of_mem _ (h.1 producer hf)
    · exact List.mem_cons_of_mem _ (ih h.2 hn)

/-- In a listing producers stand lower than their consumers. -/
theorem Listed.height_lt {q : Parts} {l : List NodeId} (h : q.Listed l) {n producer : NodeId}
    (hn : n ∈ l) (hf : q.Feeds producer n) : height l producer < height l n := by
  induction l with
  | nil => simp at hn
  | cons x rest ih =>
    have hrest : n ∈ rest → producer ∈ rest := fun hn => h.2.mem hn hf
    simp only [height]
    by_cases hmem : n ∈ rest
    · rw [if_pos hmem, if_pos (hrest hmem)]
      exact ih h.2 hmem
    · rw [if_neg hmem]
      have hx : n = x := (List.mem_cons.mp hn).resolve_right hmem
      subst hx
      rw [if_pos (h.1 producer hf)]
      have := height_le_length rest producer
      omega

/-! ## Section 3: What the search keeps -/

/-- Of the inputs of every node on a stack, those no longer pending come from finished nodes, but for
one that may come from the node of the frame above. -/
def Ongoing (q : Parts) (finished : List NodeId) : Option NodeId → List Frame → Prop
  | _, [] => True
  | above, f :: stack =>
    (∀ c ∈ q.inputsOf f.node, ∀ producer, q.source? c = some producer →
      c ∈ f.pending ∨ producer ∈ finished ∨ above = some producer) ∧
    q.Ongoing finished (some f.node) stack

theorem Ongoing.mono {q : Parts} {finished finished' : List NodeId}
    (hsub : ∀ n ∈ finished, n ∈ finished') {above : Option NodeId} {stack : List Frame}
    (h : q.Ongoing finished above stack) : q.Ongoing finished' above stack := by
  induction stack generalizing above with
  | nil => trivial
  | cons f stack ih =>
    refine ⟨fun c hc producer hs => ?_, ih h.2⟩
    rcases h.1 c hc producer hs with h | h | h
    · exact Or.inl h
    · exact Or.inr (Or.inl (hsub _ h))
    · exact Or.inr (Or.inr h)

theorem Ongoing.finish {q : Parts} {finished : List NodeId} {n : NodeId} {stack : List Frame}
    (h : q.Ongoing finished (some n) stack) : q.Ongoing (n :: finished) none stack := by
  cases stack with
  | nil => trivial
  | cons f stack =>
    refine ⟨fun c hc producer hs => ?_, h.2.mono fun m hm => List.mem_cons_of_mem _ hm⟩
    rcases h.1 c hc producer hs with h | h | h
    · exact Or.inl h
    · exact Or.inr (Or.inl (List.mem_cons_of_mem _ h))
    · injection h with h
      exact Or.inr (Or.inl (h ▸ List.mem_cons_self ..))

theorem Ongoing.skip {q : Parts} {finished : List NodeId} {n : NodeId} {c : ChannelId}
    {rest : List ChannelId} {stack : List Frame}
    (h : q.Ongoing finished none (⟨n, c :: rest⟩ :: stack))
    (hc : ∀ producer, q.source? c = some producer → producer ∈ finished) :
    q.Ongoing finished none (⟨n, rest⟩ :: stack) := by
  refine ⟨fun c' hc' producer hs => ?_, h.2⟩
  rcases h.1 c' hc' producer hs with h | h | h
  · rcases List.mem_cons.mp h with rfl | h
    · exact Or.inr (Or.inl (hc producer hs))
    · exact Or.inl h
  · exact Or.inr (Or.inl h)
  · exact absurd h (by simp)

theorem Ongoing.descend {q : Parts} {finished : List NodeId} {n producer : NodeId} {c : ChannelId}
    {rest : List ChannelId} {stack : List Frame}
    (h : q.Ongoing finished none (⟨n, c :: rest⟩ :: stack)) (hs : q.source? c = some producer) :
    q.Ongoing finished none (⟨producer, q.inputsOf producer⟩ :: ⟨n, rest⟩ :: stack) := by
  refine ⟨fun c' hc' _ _ => Or.inl hc', fun c' hc' producer' hs' => ?_, h.2⟩
  rcases h.1 c' hc' producer' hs' with h | h | h
  · rcases List.mem_cons.mp h with rfl | h
    · refine Or.inr (Or.inr ?_)
      rw [hs] at hs'
      exact hs'
    · exact Or.inl h
  · exact Or.inr (Or.inl h)
  · exact absurd h (by simp)

/-- What holds between two steps of the search. -/
structure Searching (q : Parts) (marks : Array Mark) (finished : List NodeId)
    (stack : List Frame) : Prop where
  /-- There is a mark for every node. -/
  size : marks.size = q.nodes.size
  /-- A node marked done is finished. -/
  mem_of_done : ∀ n : NodeId, marks[n.index]? = some .done → n ∈ finished
  /-- A node marked active is on the stack. -/
  mem_of_active : ∀ n : NodeId, marks[n.index]? = some .active → ∃ f ∈ stack, f.node = n
  /-- The finished nodes are a listing. -/
  listed : q.Listed finished
  /-- The stack is on its way. -/
  ongoing : q.Ongoing finished none stack

theorem getElem?_set_eq_some {marks : Array Mark} {i j : Nat} {m m' : Mark}
    (h : (marks.setIfInBounds i m)[j]? = some m') : (i = j ∧ m = m') ∨ (i ≠ j ∧ marks[j]? = some m') := by
  rw [Array.getElem?_setIfInBounds] at h
  split at h
  · rename_i hij
    split at h
    · exact Or.inl ⟨hij, by simpa using h⟩
    · simp at h
  · rename_i hij
    exact Or.inr ⟨hij, h⟩

theorem eq_of_index_eq {n m : NodeId} (h : n.index = m.index) : n = m := by
  cases n; cases m; cases h; rfl

/-- Every node that is being followed is on a stack. -/
def ActiveOn (marks : Array Mark) (stack : List Frame) : Prop :=
  ∀ n : NodeId, marks[n.index]? = some .active → ∃ f ∈ stack, f.node = n

theorem ActiveOn.finish {marks : Array Mark} {n : NodeId} {stack : List Frame}
    (h : ActiveOn marks (⟨n, []⟩ :: stack)) :
    ActiveOn (marks.setIfInBounds n.index .done) stack := by
  intro m hm
  rcases getElem?_set_eq_some hm with ⟨_, hm⟩ | ⟨hi, hm⟩
  · exact absurd hm (by simp)
  · obtain ⟨f, hf, rfl⟩ := h m hm
    rcases List.mem_cons.mp hf with rfl | hf
    · exact absurd rfl hi
    · exact ⟨f, hf, rfl⟩

theorem ActiveOn.skip {marks : Array Mark} {n : NodeId} {c : ChannelId} {rest : List ChannelId}
    {stack : List Frame} (h : ActiveOn marks (⟨n, c :: rest⟩ :: stack)) :
    ActiveOn marks (⟨n, rest⟩ :: stack) := by
  intro m hm
  obtain ⟨f, hf, rfl⟩ := h m hm
  rcases List.mem_cons.mp hf with rfl | hf
  · exact ⟨_, List.mem_cons_self .., rfl⟩
  · exact ⟨f, List.mem_cons_of_mem _ hf, rfl⟩

theorem ActiveOn.push {marks : Array Mark} {stack : List Frame} (h : ActiveOn marks stack)
    (n : NodeId) (pending : List ChannelId) :
    ActiveOn (marks.setIfInBounds n.index .active) (⟨n, pending⟩ :: stack) := by
  intro m hm
  rcases getElem?_set_eq_some hm with ⟨hi, _⟩ | ⟨_, hm⟩
  · exact ⟨_, List.mem_cons_self .., eq_of_index_eq hi⟩
  · obtain ⟨f, hf, rfl⟩ := h m hm
    exact ⟨f, List.mem_cons_of_mem _ hf, rfl⟩

theorem activeOn_fresh (size : Nat) : ActiveOn (Array.replicate size .fresh) [] := by
  intro n hn
  rw [Array.getElem?_replicate] at hn
  split at hn <;> simp at hn

/-- A search that ends keeps what it found and finishes all that was on its stack. -/
theorem follow_eq_ok {q : Parts} (hq : q.Consistent) {marks marks' : Array Mark}
    {finished finished' : List NodeId} {stack : List Frame}
    (h : q.follow marks finished stack = .ok (marks', finished'))
    (hs : q.Searching marks finished stack) :
    q.Searching marks' finished' [] ∧ (∀ f ∈ stack, f.node ∈ finished') ∧
      (∀ n ∈ finished, n ∈ finished') := by
  fun_induction follow q marks finished stack with
  | case1 marks finished =>
    injection h with h
    obtain ⟨rfl, rfl⟩ := Prod.mk.injEq .. ▸ h
    exact ⟨hs, by simp, fun n hn => hn⟩
  | case2 marks finished n stack ih =>
    have hall : ∀ producer, q.Feeds producer n → producer ∈ finished := by
      rintro producer ⟨c, hc, hsrc⟩
      rcases hs.ongoing.1 c hc producer hsrc with h | h | h
      · exact absurd h (by simp)
      · exact h
      · exact absurd h (by simp)
    obtain ⟨hs', hstack, hsub⟩ := ih h {
      size := by simpa using hs.size
      mem_of_done := fun m hm => by
        rcases getElem?_set_eq_some hm with ⟨hi, _⟩ | ⟨_, hm⟩
        · exact eq_of_index_eq hi ▸ List.mem_cons_self ..
        · exact List.mem_cons_of_mem _ (hs.mem_of_done m hm)
      mem_of_active := ActiveOn.finish hs.mem_of_active
      listed := ⟨hall, hs.listed⟩
      ongoing := hs.ongoing.2.finish }
    refine ⟨hs', fun f hf => ?_, fun m hm => hsub m (List.mem_cons_of_mem _ hm)⟩
    rcases List.mem_cons.mp hf with rfl | hf
    · exact hsub _ (List.mem_cons_self ..)
    · exact hstack f hf
  | case3 marks finished n c rest stack hsrc ih =>
    obtain ⟨hs', hstack, hsub⟩ := ih h { hs with
      mem_of_active := ActiveOn.skip hs.mem_of_active
      ongoing := hs.ongoing.skip fun producer hp => by simp [hsrc] at hp }
    refine ⟨hs', fun f hf => ?_, hsub⟩
    rcases List.mem_cons.mp hf with rfl | hf
    · exact hstack ⟨n, rest⟩ (List.mem_cons_self ..)
    · exact hstack f (List.mem_cons_of_mem _ hf)
  | case4 => simp at h
  | case5 marks finished n c rest stack producer hsrc hmark ih =>
    obtain ⟨hs', hstack, hsub⟩ := ih h {
      size := by simpa using hs.size
      mem_of_done := fun m hm => by
        rcases getElem?_set_eq_some hm with ⟨_, hm⟩ | ⟨_, hm⟩
        · exact absurd hm (by simp)
        · exact hs.mem_of_done m hm
      mem_of_active := ActiveOn.push (ActiveOn.skip hs.mem_of_active) producer _
      listed := hs.listed
      ongoing := hs.ongoing.descend hsrc }
    refine ⟨hs', fun f hf => ?_, hsub⟩
    rcases List.mem_cons.mp hf with rfl | hf
    · exact hstack ⟨n, rest⟩ (List.mem_cons_of_mem _ (List.mem_cons_self ..))
    · exact hstack f (List.mem_cons_of_mem _ (List.mem_cons_of_mem _ hf))
  | case6 marks finished n c rest stack producer hsrc hmark ih =>
    obtain ⟨hs', hstack, hsub⟩ := ih h { hs with
      mem_of_active := ActiveOn.skip hs.mem_of_active
      ongoing := hs.ongoing.skip fun producer' hp => by
        rw [hsrc] at hp
        injection hp with hp
        exact hp ▸ hs.mem_of_done producer hmark }
    refine ⟨hs', fun f hf => ?_, hsub⟩
    rcases List.mem_cons.mp hf with rfl | hf
    · exact hstack ⟨n, rest⟩ (List.mem_cons_self ..)
    · exact hstack f (List.mem_cons_of_mem _ hf)
  | case7 marks finished n c rest stack producer hsrc hmark ih =>
    obtain ⟨ch, hch, rfl⟩ := Option.map_eq_some_iff.mp hsrc
    have hlt := hq.source_lt ch (Array.mem_of_getElem? hch)
    rw [Array.getElem?_eq_none_iff, hs.size] at hmark
    omega

/-- A search from several nodes that ends finishes them all. -/
theorem followAll_eq_ok {q : Parts} (hq : q.Consistent) {starts : List NodeId} {marks : Array Mark}
    {finished finished' : List NodeId} (h : q.followAll marks finished starts = .ok finished')
    (hs : q.Searching marks finished []) (hlt : ∀ n ∈ starts, n.index < q.nodes.size) :
    q.Listed finished' ∧ (∀ n ∈ starts, n ∈ finished') ∧ (∀ n ∈ finished, n ∈ finished') := by
  induction starts generalizing marks finished with
  | nil =>
    injection h with h
    subst h
    exact ⟨hs.listed, by simp, fun n hn => hn⟩
  | cons start rest ih =>
    have hrest : ∀ n ∈ rest, n.index < q.nodes.size := fun n hn =>
      hlt n (List.mem_cons_of_mem _ hn)
    rw [followAll] at h
    split at h
    · rename_i hfresh
      split at h
      · simp at h
      · rename_i marks' finished₁ hfollow
        obtain ⟨hs', hstack, hsub⟩ := follow_eq_ok hq hfollow {
          size := by simpa using hs.size
          mem_of_done := fun m hm => by
            rcases getElem?_set_eq_some hm with ⟨_, hm⟩ | ⟨_, hm⟩
            · exact absurd hm (by simp)
            · exact hs.mem_of_done m hm
          mem_of_active := ActiveOn.push hs.mem_of_active start _
          listed := hs.listed
          ongoing := ⟨fun c hc _ _ => Or.inl hc, trivial⟩ }
        obtain ⟨hl, hall, hsub'⟩ := ih h hs' hrest
        refine ⟨hl, fun n hn => ?_, fun n hn => hsub' n (hsub n hn)⟩
        rcases List.mem_cons.mp hn with rfl | hn
        · exact hsub' _ (hstack ⟨n, q.inputsOf n⟩ (List.mem_cons_self ..))
        · exact hall n hn
    · rename_i hfresh
      obtain ⟨hl, hall, hsub⟩ := ih h hs hrest
      refine ⟨hl, fun n hn => ?_, hsub⟩
      rcases List.mem_cons.mp hn with rfl | hn
      · have hn : n.index < marks.size := by
          rw [hs.size]
          exact hlt n (List.mem_cons_self ..)
        have hmark : marks[n.index]? = some marks[n.index] := Array.getElem?_eq_getElem hn
        cases hm : marks[n.index] with
        | fresh => exact absurd (hm ▸ hmark) hfresh
        | active =>
          obtain ⟨f, hf, _⟩ := hs.mem_of_active n (hm ▸ hmark)
          exact absurd hf (by simp)
        | done => exact hsub n (hs.mem_of_done n (hm ▸ hmark))
      · exact hall n hn

/-! ## Section 4: No cycle -/

theorem mem_nodeIds {q : Parts} {n : NodeId} : n ∈ q.nodeIds ↔ n.index < q.nodes.size := by
  simp only [nodeIds, List.mem_map, List.mem_range]
  constructor
  · rintro ⟨i, hi, rfl⟩
    exact hi
  · intro h
    exact ⟨n.index, h, rfl⟩

theorem index_lt_of_feeds {q : Parts} {producer n : NodeId} (h : q.Feeds producer n) :
    n.index < q.nodes.size := by
  obtain ⟨c, hc, _⟩ := h
  unfold inputsOf at hc
  split at hc
  · rename_i node hnode
    exact (Array.getElem?_eq_some_iff.mp hnode).1
  · simp at hc

/-- A plan for which the search gives a listing has no cycle. -/
theorem acyclic_of_listing {q : Parts} (hq : q.Consistent) {l : List NodeId}
    (h : q.listing = .ok l) : q.Acyclic := by
  have hstart : q.Searching (Array.replicate q.nodes.size .fresh) [] [] := {
    size := by simp
    mem_of_done := fun n hn => by
      rw [Array.getElem?_replicate] at hn
      split at hn <;> simp at hn
    mem_of_active := activeOn_fresh _
    listed := trivial
    ongoing := trivial }
  obtain ⟨hl, hall, _⟩ := followAll_eq_ok hq h hstart fun n hn => mem_nodeIds.mp hn
  exact ⟨height l, fun producer n hf =>
    hl.height_lt (hall n (mem_nodeIds.mpr (index_lt_of_feeds hf))) hf⟩

end Parts

end Plan

end Dataflow
