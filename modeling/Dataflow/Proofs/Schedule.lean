import Dataflow.Plan.Basic
import Dataflow.Proofs.Branches

/-! # Schedules

    The callbacks of a walk that enters every node once, first to last. They are
    those of a walk that enters a node each time that it reaches it, without
    the ones that come again. Unions have no callbacks of their own: the walk
    passes through them each time.

    Main statements:
    - `ordered_schedule`: a node is left only when it has been entered and
      everything below its inputs is done
    - `mem_schedule`: the nodes of a schedule are those that are reached and no
      unions
-/

namespace Dataflow

namespace Plan

/-! ## Section 1: Lists without repetition -/

section Fresh
variable {α : Type} [DecidableEq α]

/-- The elements of a list that are not done, each where it stands first. -/
def fresh (done : List α) : List α → List α
  | [] => []
  | x :: rest => if x ∈ done then fresh done rest else x :: fresh (done ++ [x]) rest

theorem fresh_congr {done done' : List α} (h : ∀ x, x ∈ done ↔ x ∈ done') (l : List α) :
    fresh done l = fresh done' l := by
  induction l generalizing done done' with
  | nil => rfl
  | cons x rest ih =>
    have hcons : ∀ y, y ∈ done ++ [x] ↔ y ∈ done' ++ [x] := fun y => by simp [h y]
    simp only [fresh, h x]
    rw [ih h, ih hcons]

theorem mem_fresh {done l : List α} {x : α} : x ∈ fresh done l ↔ x ∈ l ∧ x ∉ done := by
  induction l generalizing done with
  | nil => simp [fresh]
  | cons y rest ih =>
    simp only [fresh]
    split
    · rename_i hy
      rw [ih, List.mem_cons]
      constructor
      · rintro ⟨h, hd⟩
        exact ⟨Or.inr h, hd⟩
      · rintro ⟨rfl | h, hd⟩
        · exact absurd hy hd
        · exact ⟨h, hd⟩
    · rename_i hy
      simp only [List.mem_cons, ih, List.mem_append, List.not_mem_nil, or_false, not_or]
      constructor
      · rintro (rfl | ⟨h, hd, _⟩)
        · exact ⟨Or.inl rfl, hy⟩
        · exact ⟨Or.inr h, hd⟩
      · rintro ⟨h, hd⟩
        by_cases hxy : x = y
        · exact Or.inl hxy
        · exact Or.inr ⟨h.resolve_left hxy, hd, hxy⟩

theorem nodup_fresh (done l : List α) : (fresh done l).Nodup := by
  induction l generalizing done with
  | nil => exact List.nodup_nil
  | cons x rest ih =>
    simp only [fresh]
    split
    · exact ih done
    · refine List.nodup_cons.mpr ⟨fun h => ?_, ih _⟩
      exact (mem_fresh.mp h).2 (by simp)

theorem fresh_append (done l l' : List α) :
    fresh done (l ++ l') = fresh done l ++ fresh (done ++ l) l' := by
  induction l generalizing done with
  | nil => simp [fresh]
  | cons x rest ih =>
    simp only [List.cons_append, fresh]
    split
    · rename_i hx
      rw [ih]
      -- The element is done already, so the two lists of what is done have the same elements.
      congr 1
      refine fresh_congr (fun y => ?_) l'
      simp only [List.mem_append, List.mem_cons]
      constructor
      · rintro (h | h)
        · exact Or.inl h
        · exact Or.inr (Or.inr h)
      · rintro (h | rfl | h)
        · exact Or.inl h
        · exact Or.inl hx
        · exact Or.inr h
    · rw [ih, List.cons_append]
      simp

theorem fresh_eq_nil {done l : List α} (h : l ⊆ done) : fresh done l = [] := by
  apply List.eq_nil_iff_forall_not_mem.mpr
  intro x hx
  obtain ⟨hl, hd⟩ := mem_fresh.mp hx
  exact hd (h hl)

theorem fresh_cons_of_not_mem {done : List α} {x : α} (h : x ∉ done) (l : List α) :
    fresh done (x :: l) = x :: fresh (done ++ [x]) l := by
  simp [fresh, h]

end Fresh

/-! ## Section 2: Callbacks -/

/-- A callback of a walk. -/
inductive Callback where
  /-- The node is entered. -/
  | enter (n : Node)
  /-- The node is left. -/
  | leave (n : Node)
deriving DecidableEq

/-- The node of a callback. -/
def Callback.node : Callback → Node
  | enter n => n
  | leave n => n

/-- The node that is entered. -/
def Callback.entered? : Callback → Option Node
  | enter n => some n
  | leave _ => none

/-- The node that is left. -/
def Callback.left? : Callback → Option Node
  | enter _ => none
  | leave n => some n

theorem mem_filterMap_entered? {l : List Callback} {n : Node} :
    n ∈ l.filterMap Callback.entered? ↔ .enter n ∈ l := by
  rw [List.mem_filterMap]
  constructor
  · rintro ⟨cb, hcb, h⟩
    cases cb with
    | enter m =>
      obtain rfl : m = n := by simpa [Callback.entered?] using h
      exact hcb
    | leave m => simp [Callback.entered?] at h
  · intro h
    exact ⟨.enter n, h, rfl⟩

theorem mem_filterMap_left? {l : List Callback} {n : Node} :
    n ∈ l.filterMap Callback.left? ↔ .leave n ∈ l := by
  rw [List.mem_filterMap]
  constructor
  · rintro ⟨cb, hcb, h⟩
    cases cb with
    | enter m => simp [Callback.left?] at h
    | leave m =>
      obtain rfl : m = n := by simpa [Callback.left?] using h
      exact hcb
  · intro h
    exact ⟨.leave n, h, rfl⟩

variable (p : Plan)

/-- Facts about nodes follow from the same facts about all their producers. -/
theorem producers_induction {motive : NodeId → Prop}
    (step : ∀ id, (∀ n c ch, p.node? id = some n → c ∈ n.inputs → p.channel? c = some ch →
      motive ch.source) → motive id) (id : NodeId) : motive id := by
  -- A producer ranks below the node that reads it.
  induction h : p.rank id using Nat.strongRecOn generalizing id with
  | ind k ih =>
    apply step id
    intro n c ch hn hc hch
    exact ih _ (h ▸ p.rank_lt_of_input hn hc hch) _ rfl

/-- The callbacks of a walk from a node that enters a node each time that it reaches it. -/
def callbacks (p : Plan) (id : NodeId) : List Callback :=
  match hn : p.node? id with
  | none => []
  | some n =>
    let below := n.inputs.attach.flatMap fun ⟨c, hc⟩ =>
      match hch : p.channel? c with
      | none => []
      | some ch =>
        have := p.rank_lt_of_input hn hc hch
        p.callbacks ch.source
    if n.isUnion then below else .enter n :: below ++ [.leave n]
termination_by p.rank id

/-- The callbacks of a walk from the node that a channel starts at. -/
def callbacksOf (c : ChannelId) : List Callback :=
  match p.channel? c with
  | none => []
  | some ch => p.callbacks ch.source

/-- The callbacks of a walk from all sinks that enters every node once. -/
def schedule : List Callback := fresh [] (p.sinks.flatMap p.callbacks)

/-- The nodes that are entered, in the order in which they are first reached. -/
def entered : List Node := p.schedule.filterMap Callback.entered?

/-- The nodes that are left, in the order in which this happens. -/
def left : List Node := p.schedule.filterMap Callback.left?

theorem callbacks_eq {id : NodeId} {n : Node} (hn : p.node? id = some n) :
    p.callbacks id =
      if n.isUnion then n.inputs.flatMap p.callbacksOf
      else .enter n :: n.inputs.flatMap p.callbacksOf ++ [.leave n] := by
  have hbelow : (n.inputs.attach.flatMap fun ⟨c, hc⟩ =>
      match hch : p.channel? c with
      | none => []
      | some ch =>
        have := p.rank_lt_of_input hn hc hch
        p.callbacks ch.source) = n.inputs.flatMap p.callbacksOf := by
    refine Eq.trans ?_ (flatMap_attach n.inputs p.callbacksOf)
    congr 1
    funext x
    simp only [callbacksOf]
    split <;> rename_i h <;> simp [h]
  rw [callbacks]
  split
  · simp_all
  · rename_i n' hn'
    obtain rfl : n' = n := by simpa [hn] using hn'.symm
    rw [hbelow]

theorem callbacks_of_union {id : NodeId} {n : Node} (hn : p.node? id = some n)
    (hu : n.isUnion = true) : p.callbacks id = n.inputs.flatMap p.callbacksOf := by
  rw [p.callbacks_eq hn, if_pos hu]

theorem callbacks_of_not_union {id : NodeId} {n : Node} (hn : p.node? id = some n)
    (hu : n.isUnion = false) :
    p.callbacks id = .enter n :: n.inputs.flatMap p.callbacksOf ++ [.leave n] := by
  rw [p.callbacks_eq hn, if_neg (by simp [hu])]

theorem callbacks_of_none {id : NodeId} (hn : p.node? id = none) : p.callbacks id = [] := by
  rw [callbacks]
  split
  · rfl
  · simp_all

theorem callbacksOf_eq {c : ChannelId} {ch : Channel} (hch : p.channel? c = some ch) :
    p.callbacksOf c = p.callbacks ch.source := by
  simp [callbacksOf, hch]

theorem mem_callbacksOf {c : ChannelId} {cb : Callback} :
    cb ∈ p.callbacksOf c ↔ ∃ ch, p.channel? c = some ch ∧ cb ∈ p.callbacks ch.source := by
  unfold callbacksOf
  split <;> rename_i h <;> simp [h]

/-- A callback of a walk from a node is for the node itself or comes from below one of its inputs. -/
theorem mem_callbacks_cases {id : NodeId} {cb : Callback} (h : cb ∈ p.callbacks id) :
    (p.node? id = some cb.node ∧ cb.node.isUnion = false) ∨
      ∃ n c ch, p.node? id = some n ∧ c ∈ n.inputs ∧ p.channel? c = some ch ∧
        cb ∈ p.callbacks ch.source := by
  have below : ∀ {n : Node}, p.node? id = some n → cb ∈ n.inputs.flatMap p.callbacksOf →
      ∃ n c ch, p.node? id = some n ∧ c ∈ n.inputs ∧ p.channel? c = some ch ∧
        cb ∈ p.callbacks ch.source := by
    intro n hn h
    obtain ⟨c, hc, h⟩ := List.mem_flatMap.mp h
    obtain ⟨ch, hch, h⟩ := p.mem_callbacksOf.mp h
    exact ⟨n, c, ch, hn, hc, hch, h⟩
  -- A union has only what is below it; any other node comes first and last itself.
  cases hn : p.node? id with
  | none => simp [p.callbacks_of_none hn] at h
  | some n =>
    cases hu : n.isUnion with
    | true => exact Or.inr (hn ▸ below hn (p.callbacks_of_union hn hu ▸ h))
    | false =>
      rw [p.callbacks_of_not_union hn hu, List.mem_append, List.mem_cons, List.mem_singleton] at h
      rcases h with (rfl | h) | rfl
      · exact Or.inl ⟨rfl, hu⟩
      · exact Or.inr (hn ▸ below hn h)
      · exact Or.inl ⟨rfl, hu⟩

/-- What is below an input of a node is below the node. -/
theorem callbacksOf_subset {id : NodeId} {n : Node} (hn : p.node? id = some n) {c : ChannelId}
    (hc : c ∈ n.inputs) : p.callbacksOf c ⊆ p.callbacks id := by
  intro cb h
  have h : cb ∈ n.inputs.flatMap p.callbacksOf := List.mem_flatMap.mpr ⟨c, hc, h⟩
  rw [p.callbacks_eq hn]
  split
  · exact h
  · exact List.mem_append_left _ (List.mem_cons_of_mem _ h)

theorem enter_mem_callbacks {id : NodeId} {n : Node} (hn : p.node? id = some n)
    (hu : n.isUnion = false) : .enter n ∈ p.callbacks id := by
  simp [p.callbacks_of_not_union hn hu]

theorem leave_mem_callbacks {id : NodeId} {n : Node} (hn : p.node? id = some n)
    (hu : n.isUnion = false) : .leave n ∈ p.callbacks id := by
  simp [p.callbacks_of_not_union hn hu]

/-- The node of a callback is no union and stands where its handle says. -/
theorem node_of_mem_callbacks {id : NodeId} {cb : Callback} (h : cb ∈ p.callbacks id) :
    p.node? cb.node.id = some cb.node ∧ cb.node.isUnion = false := by
  induction id using p.producers_induction with
  | step id ih =>
    rcases p.mem_callbacks_cases h with ⟨hn, hu⟩ | ⟨n, c, ch, hn, hc, hch, h⟩
    · exact ⟨p.id_eq hn ▸ hn, hu⟩
    · exact ih n c ch hn hc hch h

theorem rank_le_of_mem_callbacks {id : NodeId} {cb : Callback} (h : cb ∈ p.callbacks id) :
    p.rank cb.node.id ≤ p.rank id := by
  induction id using p.producers_induction with
  | step id ih =>
    rcases p.mem_callbacks_cases h with ⟨hn, _⟩ | ⟨n, c, ch, hn, hc, hch, h⟩
    · exact Nat.le_of_eq (congrArg p.rank (p.id_eq hn))
    · exact Nat.le_of_lt (Nat.lt_of_le_of_lt (ih n c ch hn hc hch h) (p.rank_lt_of_input hn hc hch))

/-- What is below an input of a node ranks below the node. -/
theorem rank_lt_of_mem_callbacksOf {id : NodeId} {n : Node} (hn : p.node? id = some n)
    {c : ChannelId} (hc : c ∈ n.inputs) {cb : Callback} (h : cb ∈ p.callbacksOf c) :
    p.rank cb.node.id < p.rank id := by
  obtain ⟨ch, hch, h⟩ := p.mem_callbacksOf.mp h
  exact Nat.lt_of_le_of_lt (p.rank_le_of_mem_callbacks h) (p.rank_lt_of_input hn hc hch)

/-- The callbacks of a node that is entered are those of the whole walk from it. -/
theorem callbacks_subset_of_mem {id : NodeId} {cb : Callback} (h : cb ∈ p.callbacks id) :
    p.callbacks cb.node.id ⊆ p.callbacks id := by
  induction id using p.producers_induction with
  | step id ih =>
    rcases p.mem_callbacks_cases h with ⟨hn, _⟩ | ⟨n, c, ch, hn, hc, hch, h⟩
    · rw [p.id_eq hn]
      exact List.Subset.refl _
    · refine List.Subset.trans (ih n c ch hn hc hch h) ?_
      exact p.callbacksOf_eq hch ▸ p.callbacksOf_subset hn hc

/-! ## Section 3: Order -/

/-- A callback may happen after others: a node is left only when it has been entered and everything
below its inputs is done. -/
def Ready (done : List Callback) : Callback → Prop
  | .enter _ => True
  | .leave n => .enter n ∈ done ∧ ∀ c ∈ n.inputs, p.callbacksOf c ⊆ done

/-- Each of a list of callbacks may happen when its turn comes. -/
def Ordered (done : List Callback) : List Callback → Prop
  | [] => True
  | cb :: rest => p.Ready done cb ∧ Ordered (done ++ [cb]) rest

theorem Ready.mono {p : Plan} {done done' : List Callback} (hsub : done ⊆ done') {cb : Callback}
    (h : p.Ready done cb) : p.Ready done' cb := by
  cases cb with
  | enter n => trivial
  | leave n => exact ⟨hsub h.1, fun c hc => List.Subset.trans (h.2 c hc) hsub⟩

theorem Ordered.mono {p : Plan} {done done' : List Callback} (hsub : done ⊆ done')
    {l : List Callback} (h : p.Ordered done l) : p.Ordered done' l := by
  induction l generalizing done done' with
  | nil => trivial
  | cons cb rest ih =>
    exact ⟨h.1.mono hsub, ih (List.append_subset.mpr
      ⟨List.Subset.trans hsub (List.subset_append_left ..), List.subset_append_right ..⟩) h.2⟩

theorem ordered_append {done l l' : List Callback} :
    p.Ordered done (l ++ l') ↔ p.Ordered done l ∧ p.Ordered (done ++ l) l' := by
  induction l generalizing done with
  | nil => simp [Ordered]
  | cons cb rest ih => simp [Ordered, ih, and_assoc]

theorem ordered_flatMap {α : Type} {l : List α} {f : α → List Callback} {done : List Callback}
    (h : ∀ a ∈ l, p.Ordered done (f a)) : p.Ordered done (l.flatMap f) := by
  induction l generalizing done with
  | nil => trivial
  | cons a rest ih =>
    rw [List.flatMap_cons, ordered_append]
    refine ⟨h a (List.mem_cons_self ..), ih fun b hb => ?_⟩
    exact (h b (List.mem_cons_of_mem _ hb)).mono (List.subset_append_left ..)

theorem ordered_callbacks (done : List Callback) (id : NodeId) :
    p.Ordered done (p.callbacks id) := by
  -- What is done before does not matter: the walk from a node brings all that its leaving needs.
  induction id using p.producers_induction generalizing done with
  | step id ih =>
    cases hn : p.node? id with
    | none => simp [p.callbacks_of_none hn, Ordered]
    | some n =>
      have below : ∀ done, p.Ordered done (n.inputs.flatMap p.callbacksOf) := by
        intro done
        apply p.ordered_flatMap
        intro c hc
        obtain ⟨ch, hch, _⟩ := p.exists_channel hn hc
        exact p.callbacksOf_eq hch ▸ ih n c ch hn hc hch done
      cases hu : n.isUnion with
      | true => exact p.callbacks_of_union hn hu ▸ below done
      | false =>
        rw [p.callbacks_of_not_union hn hu, List.cons_append]
        -- The leaving comes last: the entering is at the front, and all inputs are between.
        refine ⟨trivial, p.ordered_append.mpr ⟨below _, ⟨?_, ?_⟩, trivial⟩⟩
        · simp
        · intro c hc cb h
          exact List.mem_append_right _ (List.mem_flatMap.mpr ⟨c, hc, h⟩)

theorem Ordered.fresh {p : Plan} {done l : List Callback} (h : p.Ordered done l) :
    p.Ordered done (fresh done l) := by
  induction l generalizing done with
  | nil => trivial
  | cons cb rest ih =>
    simp only [Plan.fresh]
    split
    · rename_i hcb
      -- A callback that is skipped is done, so nothing is missing for those after it.
      refine ih (h.2.mono ?_)
      exact List.append_subset.mpr ⟨List.Subset.refl _, by simpa using hcb⟩
    · exact ⟨h.1, ih h.2⟩

theorem ordered_schedule : p.Ordered [] p.schedule :=
  Ordered.fresh (p.ordered_flatMap fun id _ => p.ordered_callbacks [] id)

theorem nodup_schedule : p.schedule.Nodup := nodup_fresh ..

/-- When the turn of a callback comes it has not happened and may happen. -/
theorem ready_of_schedule {done rest : List Callback} {cb : Callback}
    (h : p.schedule = done ++ cb :: rest) : cb ∉ done ∧ p.Ready done cb := by
  refine ⟨fun hcb => ?_, ?_⟩
  · have := h ▸ p.nodup_schedule
    exact (List.nodup_append.mp this).2.2 cb hcb cb (List.mem_cons_self ..) rfl
  · have := h ▸ p.ordered_schedule
    simpa using (p.ordered_append.mp this).2.1

/-! ## Section 4: Reachable nodes -/

/-- A node is a sink of the walk or feeds a node that is reachable. -/
inductive Reachable : NodeId → Prop where
  | sink {id : NodeId} (h : id ∈ p.sinks) : Reachable id
  | input {id : NodeId} {n : Node} {c : ChannelId} {ch : Channel} (h : Reachable id)
      (hn : p.node? id = some n) (hc : c ∈ n.inputs) (hch : p.channel? c = some ch) :
      Reachable ch.source

/-- The node that an input of a reachable node comes from is reachable. -/
theorem Reachable.of_input {p : Plan} {id source : NodeId} {n : Node} {c : ChannelId} {ch : Channel}
    (h : p.Reachable id) (hn : p.node? id = some n) (hc : c ∈ n.inputs)
    (hch : p.channel? c = some ch) (hsource : ch.source = source) : p.Reachable source :=
  hsource ▸ h.input hn hc hch

theorem Reachable.of_mem_callbacks {p : Plan} {id : NodeId} (h : p.Reachable id) {cb : Callback}
    (hcb : cb ∈ p.callbacks id) : p.Reachable cb.node.id := by
  induction id using p.producers_induction with
  | step id ih =>
    rcases p.mem_callbacks_cases hcb with ⟨hn, _⟩ | ⟨n, c, ch, hn, hc, hch, hcb⟩
    · exact (p.id_eq hn).symm ▸ h
    · exact ih n c ch hn hc hch (h.input hn hc hch) hcb

theorem Reachable.callbacks_subset {p : Plan} {id : NodeId} (h : p.Reachable id) :
    p.callbacks id ⊆ p.sinks.flatMap p.callbacks := by
  induction h with
  | sink h => exact fun cb hcb => List.mem_flatMap.mpr ⟨_, h, hcb⟩
  | input _ hn hc hch ih =>
    exact List.Subset.trans (p.callbacksOf_eq hch ▸ p.callbacksOf_subset hn hc) ih

theorem mem_schedule {cb : Callback} : cb ∈ p.schedule ↔
    p.node? cb.node.id = some cb.node ∧ cb.node.isUnion = false ∧ p.Reachable cb.node.id := by
  simp only [schedule, mem_fresh, List.not_mem_nil, not_false_eq_true, and_true]
  constructor
  · intro h
    obtain ⟨s, hs, h⟩ := List.mem_flatMap.mp h
    obtain ⟨hn, hu⟩ := p.node_of_mem_callbacks h
    exact ⟨hn, hu, (Reachable.sink hs).of_mem_callbacks h⟩
  · rintro ⟨hn, hu, hr⟩
    refine hr.callbacks_subset ?_
    cases cb with
    | enter n => exact p.enter_mem_callbacks hn hu
    | leave n => exact p.leave_mem_callbacks hn hu

/-! ## Section 5: Nodes entered and left -/

theorem mem_entered {n : Node} : n ∈ p.entered ↔
    p.node? n.id = some n ∧ n.isUnion = false ∧ p.Reachable n.id := by
  rw [entered, mem_filterMap_entered?]
  exact p.mem_schedule

theorem mem_left {n : Node} : n ∈ p.left ↔
    p.node? n.id = some n ∧ n.isUnion = false ∧ p.Reachable n.id := by
  rw [left, mem_filterMap_left?]
  exact p.mem_schedule

theorem nodup_entered : p.entered.Nodup := by
  refine List.Pairwise.filterMap _ (fun cb cb' hne n hn m hm hnm => hne ?_) p.nodup_schedule
  cases cb <;> cases cb' <;> simp_all [Callback.entered?]

theorem nodup_left : p.left.Nodup := by
  refine List.Pairwise.filterMap _ (fun cb cb' hne n hn m hm hnm => hne ?_) p.nodup_schedule
  cases cb <;> cases cb' <;> simp_all [Callback.left?]

theorem nodup_ids {l : List Node} (hl : l.Nodup) (h : ∀ n ∈ l, p.node? n.id = some n) :
    (l.map Node.id).Nodup := by
  refine List.pairwise_map.mpr (hl.imp_of_mem fun {n m} hn hm hne hid => hne ?_)
  exact p.node?_inj (h n hn) (h m hm) hid

/-- A node that is entered is the only one with its handle. -/
theorem eq_of_entered {n m : Node} (hn : n ∈ p.entered) (hm : m ∈ p.entered) (hid : n.id = m.id) :
    n = m :=
  p.node?_inj (p.mem_entered.mp hn).1 (p.mem_entered.mp hm).1 hid

/-! ## Section 6: Branches -/

/-- Facts about channels follow if they hold where no union is the source, and if they pass from the
inputs of a union to the channels that start there. -/
theorem channel_induction {motive : ∀ c ch, p.channel? c = some ch → Prop}
    (own : ∀ c ch n (hch : p.channel? c = some ch), p.node? ch.source = some n → n.isUnion = false →
      motive c ch hch)
    (union : ∀ c ch n (hch : p.channel? c = some ch), p.node? ch.source = some n → n.isUnion = true →
      (∀ d ∈ n.inputs, ∀ dh (hdh : p.channel? d = some dh), motive d dh hdh) → motive c ch hch)
    (c : ChannelId) (ch : Channel) (hch : p.channel? c = some ch) : motive c ch hch := by
  induction hid : ch.source using p.producers_induction generalizing c ch with
  | step id ih =>
    subst hid
    obtain ⟨n, hn⟩ := p.exists_source hch
    cases hu : n.isUnion with
    | false => exact own c ch n hch hn hu
    | true =>
      apply union c ch n hch hn hu
      intro d hd dh hdh
      exact ih n d dh hn hd hdh d dh hdh rfl

/-- A branch of a channel is a channel of the plan, and what is below it is below the channel. -/
theorem mem_flat {c : ChannelId} {ch : Channel} (hch : p.channel? c = some ch) {b : Channel}
    (hb : b ∈ p.flat ch) : (∃ d, p.channel? d = some b) ∧
      (∃ m, p.node? b.source = some m ∧ m.isUnion = false) ∧
      p.callbacks b.source ⊆ p.callbacks ch.source ∧ p.rank b.source ≤ p.rank ch.source := by
  induction c, ch, hch using p.channel_induction with
  | own c ch n hch hn hu =>
    rw [p.flat_of_not_union hn hu, List.mem_singleton] at hb
    subst hb
    exact ⟨⟨c, hch⟩, ⟨n, hn, hu⟩, List.Subset.refl _, Nat.le_refl _⟩
  | union c ch n hch hn hu ih =>
    rw [p.flat_of_union hn hu, List.mem_flatMap] at hb
    obtain ⟨d, hd, hb⟩ := hb
    obtain ⟨dh, hdh, -, hb⟩ := p.exists_channel_of_branch hn hd hb
    obtain ⟨h₁, h₂, h₃, h₄⟩ := ih d hd dh hdh hb
    refine ⟨h₁, h₂, List.Subset.trans h₃ ?_, Nat.le_trans h₄ (Nat.le_of_lt ?_)⟩
    · exact p.callbacksOf_eq hdh ▸ p.callbacksOf_subset hn hd
    · exact p.rank_lt_of_input hn hd hdh

/-! ## Section 7: The start of a schedule -/

section
variable {p : Plan} {done : List Callback}

theorem node_of_done (hdone : done <+: p.schedule) {cb : Callback} (hcb : cb ∈ done) :
    p.node? cb.node.id = some cb.node ∧ cb.node.isUnion = false := by
  obtain ⟨hn, hu, -⟩ := p.mem_schedule.mp (hdone.subset hcb)
  exact ⟨hn, hu⟩

/-- When a node has been left, it has been entered and everything below its inputs is done. -/
theorem ready_of_done (hdone : done <+: p.schedule) {n : Node} (hn : .leave n ∈ done) :
    p.Ready done (.leave n) := by
  obtain ⟨rest, hrest⟩ := hdone
  obtain ⟨pre, post, rfl⟩ := List.append_of_mem hn
  -- The leaving was ready when its turn came, and what was done then still is.
  have hsplit : p.schedule = pre ++ .leave n :: (post ++ rest) := by simp [← hrest]
  exact (p.ready_of_schedule hsplit).2.mono (List.subset_append_left ..)

/-- When a node has been left, the whole walk from it is done. -/
theorem callbacks_of_done (hdone : done <+: p.schedule) {n : Node} (hn : .leave n ∈ done) :
    p.callbacks n.id ⊆ done := by
  obtain ⟨hnode, hu⟩ : p.node? n.id = some n ∧ n.isUnion = false := node_of_done hdone hn
  obtain ⟨hentered, hbelow⟩ := ready_of_done hdone hn
  rw [p.callbacks_of_not_union hnode hu]
  intro cb hcb
  rcases List.mem_append.mp hcb with hcb | hcb
  · rcases List.mem_cons.mp hcb with rfl | hcb
    · exact hentered
    · obtain ⟨c, hc, hcb⟩ := List.mem_flatMap.mp hcb
      exact hbelow c hc hcb
  · exact List.mem_singleton.mp hcb ▸ hn

end

end Plan

end Dataflow
