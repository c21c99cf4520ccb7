import Dataflow.Plan.Branches

/-! # The two listings of branches agree

    The branches that are found with a stack are those of the recursion over
    unions, and in a plan they are found without a failure: every handle of a
    consistent plan names something.

    Main statements:
    - `flat_of_union`: the branches of a channel from a union are those of the
      inputs of the union, in slot order
    - `branches_eq_flat`: the listing with a stack is the listing by recursion
-/

namespace Dataflow

namespace Plan

/-! ## Section 1: Handles -/

theorem Consistent.id_eq {q : Parts} (h : q.Consistent) {id : NodeId} {n : Node}
    (hn : q.node? id = some n) : n.id = id := by
  have := h.index_of_node id.index n hn
  cases hid : n.id
  cases id
  simp_all

variable (p : Plan)

theorem id_eq {id : NodeId} {n : Node} (hn : p.node? id = some n) : n.id = id :=
  Consistent.id_eq p.consistent hn

theorem channel_id_eq {id : ChannelId} {ch : Channel} (hch : p.channel? id = some ch) : ch.id = id :=
  congrArg Handle.mk (p.consistent.index_of_channel id.index ch hch)

theorem node?_of_mem {n : Node} (hn : n ∈ p.nodes) : p.node? n.id = some n := by
  obtain ⟨i, hi⟩ := Array.mem_iff_getElem?.mp hn
  rw [Parts.node?, p.consistent.index_of_node i n hi, hi]

/-- A node is the only one with its handle. -/
theorem node?_inj {n m : Node} (hn : p.node? n.id = some n) (hm : p.node? m.id = some m)
    (hid : n.id = m.id) : n = m := by
  rw [hid, hm] at hn
  exact (Option.some.inj hn).symm

theorem exists_channel {id : NodeId} {n : Node} (hn : p.node? id = some n) {c : ChannelId}
    (hc : c ∈ n.inputs) : ∃ ch, p.channel? c = some ch ∧ ch.target = id := by
  obtain ⟨ch, hch, ht⟩ := p.consistent.input_target n (Array.mem_of_getElem? hn) c hc
  exact ⟨ch, hch, ht.trans (p.id_eq hn)⟩

theorem exists_channels {id : NodeId} {n : Node} (hn : p.node? id = some n) :
    ∀ c ∈ n.inputs, ∃ ch, p.channel? c = some ch :=
  fun _ hc => (p.exists_channel hn hc).imp fun _ h => h.1

theorem exists_source {c : ChannelId} {ch : Channel} (hch : p.channel? c = some ch) :
    ∃ n, p.node? ch.source = some n := by
  have h := p.consistent.source_lt ch (Array.mem_of_getElem? hch)
  exact ⟨p.nodes[ch.source.index], Array.getElem?_eq_getElem h⟩

/-! ## Section 2: Branches by recursion -/

/-- The branches of the channel that a handle names. -/
def branchesOf (c : ChannelId) : List Channel :=
  match p.channel? c with
  | none => []
  | some ch => p.flat ch

theorem flatMap_attach {α β : Type} (l : List α) (f : α → List β) :
    (l.attach.flatMap fun x => f x.1) = l.flatMap f := by
  conv => rhs; rw [← List.attach_map_subtype_val l, List.flatMap_map]

theorem flat_of_union {ch : Channel} {n : Node} (hn : p.node? ch.source = some n)
    (hu : n.isUnion = true) : p.flat ch = n.inputs.flatMap p.branchesOf := by
  rw [flat]
  split
  · simp_all
  · rename_i n' hn'
    obtain rfl : n' = n := by simpa [hn] using hn'.symm
    rw [if_pos hu]
    -- The recursion carries along that a channel is an input, and the branches do not depend on it.
    refine Eq.trans ?_ (flatMap_attach n'.inputs p.branchesOf)
    congr 1
    funext x
    simp only [branchesOf]
    split <;> rename_i h <;> simp [h]

theorem flat_of_not_union {ch : Channel} {n : Node} (hn : p.node? ch.source = some n)
    (hu : n.isUnion = false) : p.flat ch = [ch] := by
  rw [flat]
  split
  · rfl
  · rename_i n' hn'
    obtain rfl : n' = n := by simpa [hn] using hn'.symm
    rw [if_neg (by simp [hu])]

/-- An input that does not come from a union has one branch, its own channel. -/
theorem branchesOf_of_not_union {c : ChannelId} {ch : Channel} {n : Node}
    (hch : p.channel? c = some ch) (hn : p.node? ch.source = some n) (hu : n.isUnion = false) :
    p.branchesOf c = [ch] := by
  simp only [branchesOf, hch, p.flat_of_not_union hn hu]

/-- An input that comes from a union has the branches of the inputs of the union. -/
theorem branchesOf_of_union {c : ChannelId} {ch : Channel} {n : Node}
    (hch : p.channel? c = some ch) (hn : p.node? ch.source = some n) (hu : n.isUnion = true) :
    p.branchesOf c = n.inputs.flatMap p.branchesOf := by
  simp only [branchesOf, hch, p.flat_of_union hn hu]

/-- A branch of an input of a node is a branch of the input's channel. -/
theorem exists_channel_of_branch {n : Node} {id : NodeId} (hn : p.node? id = some n) {c : ChannelId}
    (hc : c ∈ n.inputs) {b : Channel} (hb : b ∈ p.branchesOf c) :
    ∃ ch, p.channel? c = some ch ∧ ch.target = id ∧ b ∈ p.flat ch := by
  obtain ⟨ch, hch, htarget⟩ := p.exists_channel hn hc
  simp only [branchesOf, hch] at hb
  exact ⟨ch, hch, htarget, hb⟩

/-! ## Section 3: Branches with a stack -/

theorem mapM_channel_ok {inputs : List ChannelId} (h : ∀ c ∈ inputs, ∃ ch, p.channel? c = some ch) :
    ∃ channels, inputs.mapM p.channel = .ok channels ∧
      (∀ ch ∈ channels, ∃ c ∈ inputs, p.channel? c = some ch) ∧
      channels.flatMap p.flat = inputs.flatMap p.branchesOf := by
  induction inputs with
  | nil => exact ⟨[], rfl, by simp, rfl⟩
  | cons c rest ih =>
    obtain ⟨ch, hch⟩ := h c (List.mem_cons_self ..)
    obtain ⟨channels, hok, hmem, hflat⟩ := ih fun c hc => h c (List.mem_cons_of_mem _ hc)
    refine ⟨ch :: channels, ?_, ?_, ?_⟩
    · have : p.channel c = .ok ch := by simp [Parts.channel, hch]
      simp [List.mapM_cons, this, hok, bind, Except.bind, pure, Except.pure]
    · intro d hd
      rcases List.mem_cons.mp hd with rfl | hd
      · exact ⟨c, List.mem_cons_self .., hch⟩
      · obtain ⟨c', hc', h'⟩ := hmem d hd
        exact ⟨c', List.mem_cons_of_mem _ hc', h'⟩
    · simp [hflat, branchesOf, hch]

theorem branchesFrom_eq {found stack : List Channel}
    (h : ∀ ch ∈ stack, ∃ n, p.node? ch.source = some n) :
    p.branchesFrom found stack = .ok (found.reverse ++ stack.flatMap p.flat) := by
  -- What is on the stack has a source, so the two cases with a fault do not occur.
  fun_induction branchesFrom p found stack with
  | case1 found => simp
  | case2 found ch stack hn =>
    obtain ⟨n, hn'⟩ := h ch (List.mem_cons_self ..)
    simp [hn] at hn'
  | case3 found ch stack n hn hu fault hfault =>
    obtain ⟨channels, hok, -⟩ := p.mapM_channel_ok (p.exists_channels hn)
    simp [hok] at hfault
  | case4 found ch stack n hn hu channels hchannels ih =>
    obtain ⟨channels', hok, hmem, hflat⟩ := p.mapM_channel_ok (p.exists_channels hn)
    obtain rfl : channels' = channels := by simpa [hchannels] using hok.symm
    rw [ih ?_]
    · simp [hflat, p.flat_of_union hn hu]
    · intro d hd
      rcases List.mem_append.mp hd with hd | hd
      · obtain ⟨c, _, hc⟩ := hmem d hd
        exact p.exists_source hc
      · exact h d (List.mem_cons_of_mem _ hd)
  | case5 found ch stack n hn hu ih =>
    rw [ih fun d hd => h d (List.mem_cons_of_mem _ hd)]
    simp [p.flat_of_not_union hn (by simpa using hu)]

/-- The branches that the stack finds are those of the recursion. -/
theorem branches_eq_flat {c : ChannelId} {ch : Channel} (hch : p.channel? c = some ch) :
    p.branches ch = .ok (p.flat ch) := by
  unfold branches
  rw [p.branchesFrom_eq (by simpa using p.exists_source hch)]
  simp

end Plan

end Dataflow
