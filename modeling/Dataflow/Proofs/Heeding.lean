import Dataflow.Proofs.Runs
import Dataflow.Proofs.Schedule
import Dataflow.Proofs.Walk

/-! # Walks that heed the schedule

    A visitor heeds the schedule if it enters what is new, passes over what has
    been entered before, goes through a union each time, and keeps an invariant
    in doing so. From every node its walk does the callbacks of the schedule that
    are left there. A union is left when everything below its inputs is done, as
    any other node is, though it has no part in the schedule itself.

    The invariant of the walk is that a node which has been entered, and ranks
    low enough to be met again, is done with all that is below it. The nodes
    that are open at any time rank above what is walked.

    Main statement:
    - `Heeds.walk`: the walk of a visitor that heeds the schedule keeps its
      invariant along it, up to the first fault
-/

namespace Dataflow

namespace Plan

variable {p : Plan} {done : List Callback}

/-! ## Section 1: Closed walks -/

/-- Every node of some kind that has been entered is done with all that is below it. -/
def Closed (p : Plan) (kind : NodeId → Prop) (done : List Callback) : Prop :=
  ∀ n, .enter n ∈ done → kind n.id → p.callbacks n.id ⊆ done

theorem Closed.mono {kind kind' : NodeId → Prop} (h : p.Closed kind done)
    (hkind : ∀ id, kind' id → kind id) : p.Closed kind' done :=
  fun n hn hk => h n hn (hkind n.id hk)

/-- Callbacks that are those of whole walks. -/
def Whole (p : Plan) (l : List Callback) : Prop := ∀ n, .enter n ∈ l → p.callbacks n.id ⊆ l

theorem whole_callbacks (id : NodeId) : p.Whole (p.callbacks id) :=
  fun _ hn => p.callbacks_subset_of_mem hn

theorem whole_callbacksOf (c : ChannelId) : p.Whole (p.callbacksOf c) := by
  unfold callbacksOf
  split
  · exact fun n hn => absurd hn (List.not_mem_nil)
  · exact whole_callbacks _

theorem mem_append_fresh {l : List Callback} {cb : Callback} :
    cb ∈ done ++ fresh done l ↔ cb ∈ done ++ l := by
  simp only [List.mem_append, mem_fresh]
  by_cases h : cb ∈ done <;> simp [h]

/-- Whole walks keep closed what is closed. -/
theorem Closed.append_fresh {kind : NodeId → Prop} (h : p.Closed kind done) {l : List Callback}
    (hl : p.Whole l) : p.Closed kind (done ++ fresh done l) := by
  intro n hn hk cb hcb
  rcases List.mem_append.mp (mem_append_fresh.mp hn) with hn | hn
  · exact List.mem_append_left _ (h n hn hk hcb)
  · exact mem_append_fresh.mpr (List.mem_append_right _ (hl n hn hcb))

theorem fresh_append_fresh (l l' : List Callback) :
    fresh done (l ++ l') = fresh done l ++ fresh (done ++ fresh done l) l' := by
  rw [fresh_append]
  congr 1
  exact fresh_congr (fun cb => mem_append_fresh.symm) l'

/-- A walk that enters a node for the first time leaves it after what is new below it. -/
theorem fresh_callbacks {id : NodeId} {n : Node} (hn : p.node? id = some n)
    (hu : n.isUnion = false) (hdone : done <+: p.schedule) (hnew : .enter n ∉ done) :
    fresh done (p.callbacks id) = [.enter n] ++
      (fresh (done ++ [.enter n]) (n.inputs.flatMap p.callbacksOf) ++ [.leave n]) := by
  -- The node has not been left before, and it is not left below its own inputs, which rank lower.
  have hleave : .leave n ∉ done ++ [.enter n] ++ n.inputs.flatMap p.callbacksOf := by
    intro hmem
    rcases List.mem_append.mp hmem with hmem | hmem
    · rcases List.mem_append.mp hmem with hmem | hmem
      · exact hnew (ready_of_done hdone hmem).1
      · simp at hmem
    · obtain ⟨c, hc, hmem⟩ := List.mem_flatMap.mp hmem
      have hrank := p.rank_lt_of_mem_callbacksOf hn hc hmem
      simp [Callback.node, p.id_eq hn] at hrank
  rw [p.callbacks_of_not_union hn hu, List.cons_append, fresh_cons_of_not_mem hnew, fresh_append,
    fresh_cons_of_not_mem hleave]
  rfl

/-- A node ranks below a bound. -/
def Below (p : Plan) (k : Nat) (id : NodeId) : Prop := p.rank id < k

/-! ## Section 2: Visitors that heed the schedule -/

/-- A visitor enters every node once but passes through unions each time, and keeps an invariant. Each
callback of the schedule may have a fault. -/
structure Heeds {σ ε : Type} (p : Plan) (v : Visitor σ ε) (fault? : Callback → Option ε)
    (inv : List Callback → σ → Prop) (stop : σ → Prop) : Prop where
  /-- A union is entered each time. -/
  enter_union : ∀ {done : List Callback} {s : σ} {n : Node}, done <+: p.schedule → inv done s →
    p.node? n.id = some n → n.isUnion = true →
      Ends (v.enter n) s none (fun entered s' => entered = true ∧ inv done s') stop
  /-- A union is left when everything below its inputs is done. -/
  leave_union : ∀ {done : List Callback} {s : σ} {n : Node}, done <+: p.schedule → inv done s →
    p.node? n.id = some n → n.isUnion = true → (∀ c ∈ n.inputs, p.callbacksOf c ⊆ done) →
      Ends (v.leave n) s none (fun _ => inv done) stop
  /-- A node that has been entered is not entered again. -/
  enter_old : ∀ {done : List Callback} {s : σ} {n : Node}, done <+: p.schedule → inv done s →
    .enter n ∈ done → Ends (v.enter n) s none (fun entered s' => entered = false ∧ inv done s') stop
  /-- A node that has not been entered is entered. -/
  enter_new : ∀ {done : List Callback} {s : σ} {n : Node}, done ++ [.enter n] <+: p.schedule →
    inv done s → Ends (v.enter n) s (fault? (.enter n))
      (fun entered s' => entered = true ∧ inv (done ++ [.enter n]) s') stop
  /-- A node is left after it has been entered. -/
  leave_new : ∀ {done : List Callback} {s : σ} {n : Node}, done ++ [.leave n] <+: p.schedule →
    inv done s → Ends (v.leave n) s (fault? (.leave n)) (fun _ => inv (done ++ [.leave n])) stop

section
variable {σ ε : Type} {v : Visitor σ ε} {fault? : Callback → Option ε}
  {inv : List Callback → σ → Prop} {stop : σ → Prop}

/-- A part of a walk does the callbacks of a list that have not been done, up to the first fault. -/
def Pursues (p : Plan) (fault? : Callback → Option ε) (inv : List Callback → σ → Prop)
    (stop : σ → Prop) (kind : NodeId → Prop) (m : EStateM ε σ Unit) (l : List Callback) : Prop :=
  ∀ done s, done ++ fresh done l <+: p.schedule → p.Closed kind done → inv done s →
    Ends m s ((fresh done l).findSome? fault?) (fun _ => inv (done ++ fresh done l)) stop

theorem Pursues.mono {kind kind' : NodeId → Prop} {m : EStateM ε σ Unit} {l : List Callback}
    (h : p.Pursues fault? inv stop kind m l) (hkind : ∀ id, kind id → kind' id) :
    p.Pursues fault? inv stop kind' m l :=
  fun done s hdone hclosed hs => h done s hdone (hclosed.mono hkind) hs

theorem Pursues.nil {kind : NodeId → Prop} : p.Pursues fault? inv stop kind (pure ()) [] := by
  intro done s _ _ hs
  exact Ends.pure (by simpa [fresh] using hs)

theorem Pursues.append {kind : NodeId → Prop} {m m' : EStateM ε σ Unit} {l l' : List Callback}
    (hl : p.Whole l) (h : p.Pursues fault? inv stop kind m l)
    (h' : p.Pursues fault? inv stop kind m' l') :
    p.Pursues fault? inv stop kind (m >>= fun _ => m') (l ++ l') := by
  intro done s hdone hclosed hs
  rw [fresh_append_fresh, ← List.append_assoc] at hdone ⊢
  rw [List.findSome?_append]
  have hmid : done ++ fresh done l <+: p.schedule := (List.prefix_append ..).trans hdone
  apply (h done s hmid hclosed hs).bind
  intro _ s' hs'
  exact h' _ s' hdone (hclosed.append_fresh hl) hs'

/-- A loop of walks does the callbacks of all of them. -/
theorem Pursues.forM {α : Type} {kind : NodeId → Prop} {xs : List α} {m : α → EStateM ε σ Unit}
    {l : α → List Callback} (hl : ∀ x ∈ xs, p.Whole (l x))
    (h : ∀ x ∈ xs, p.Pursues fault? inv stop kind (m x) (l x)) :
    p.Pursues fault? inv stop kind (ForM.forM xs m) (xs.flatMap l) := by
  induction xs with
  | nil => exact Pursues.nil
  | cons x rest ih =>
    rw [List.forM_cons, List.flatMap_cons]
    refine Pursues.append (hl x (List.mem_cons_self ..)) (h x (List.mem_cons_self ..)) (ih ?_ ?_)
    · exact fun y hy => hl y (List.mem_cons_of_mem _ hy)
    · exact fun y hy => h y (List.mem_cons_of_mem _ hy)

/-! ## Section 3: Visits -/

/-- The inputs of a node are walked below it, if each of them is walked as its source is. -/
theorem inputs_pursue {id : NodeId} {n : Node} (hn : p.node? id = some n)
    (hvisit : ∀ c ch, c ∈ n.inputs → p.channel? c = some ch → p.Pursues fault? inv stop
      (p.Below (p.rank ch.source + 1)) (p.visit v ch.source) (p.callbacks ch.source)) :
    p.Pursues fault? inv stop (p.Below (p.rank id)) (ForM.forM n.inputs (p.visitSource v))
      (n.inputs.flatMap p.callbacksOf) := by
  refine Pursues.forM (fun c _ => whole_callbacksOf c) ?_
  intro c hc
  obtain ⟨ch, hch, -⟩ := p.exists_channel hn hc
  rw [p.callbacksOf_eq hch]
  simp only [visitSource, hch]
  apply (hvisit c ch hc hch).mono
  intro m hm
  have hrank := p.rank_lt_of_input hn hc hch
  unfold Below at hm ⊢
  omega

namespace Heeds

variable (h : p.Heeds v fault? inv stop) {s : σ} {id : NodeId} {n : Node} (hn : p.node? id = some n)
include h hn

/-- A visit of a union does what is new below its inputs. -/
theorem visit_union (hu : n.isUnion = true) (hinputs : p.Pursues fault? inv stop
      (p.Below (p.rank id)) (ForM.forM n.inputs (p.visitSource v)) (n.inputs.flatMap p.callbacksOf))
    (hnext : done ++ fresh done (p.callbacks id) <+: p.schedule)
    (hclosed : p.Closed (p.Below (p.rank id)) done) (hs : inv done s) :
    Ends (p.visit v id) s ((fresh done (p.callbacks id)).findSome? fault?)
      (fun _ => inv (done ++ fresh done (p.callbacks id))) stop := by
  have hdone : done <+: p.schedule := (List.prefix_append ..).trans hnext
  rw [p.callbacks_of_union hn hu] at hnext ⊢
  rw [p.visit_eq v hn, ← Option.none_or (o := List.findSome? _ _),
    ← Option.or_none (o := List.findSome? _ _)]
  apply (h.enter_union hdone hs (p.id_eq hn ▸ hn) hu).bind
  rintro _ s₁ ⟨rfl, hs₁⟩
  apply (hinputs done s₁ hnext hclosed hs₁).bind
  intro _ s₂ hs₂
  apply h.leave_union hnext hs₂ (p.id_eq hn ▸ hn) hu
  intro c hc cb hcb
  exact mem_append_fresh.mpr (List.mem_append_right _ (List.mem_flatMap.mpr ⟨c, hc, hcb⟩))

/-- A visit of a node that has been entered does nothing. -/
theorem visit_old (hdone : done <+: p.schedule) (hs : inv done s) (hold : .enter n ∈ done) :
    Ends (p.visit v id) s none (fun _ => inv done) stop := by
  rw [p.visit_eq v hn, ← Option.none_or (o := none)]
  apply (h.enter_old hdone hs hold).bind
  rintro _ s' ⟨rfl, hs'⟩
  exact Ends.pure hs'

/-- A visit of a node that is new enters it, does what is new below its inputs and leaves it. -/
theorem visit_new (hu : n.isUnion = false) (hinputs : p.Pursues fault? inv stop
      (p.Below (p.rank id)) (ForM.forM n.inputs (p.visitSource v)) (n.inputs.flatMap p.callbacksOf))
    (hnext : done ++ fresh done (p.callbacks id) <+: p.schedule)
    (hclosed : p.Closed (p.Below (p.rank id)) done) (hs : inv done s) (hnew : .enter n ∉ done) :
    Ends (p.visit v id) s ((fresh done (p.callbacks id)).findSome? fault?)
      (fun _ => inv (done ++ fresh done (p.callbacks id))) stop := by
  have hdone : done <+: p.schedule := (List.prefix_append ..).trans hnext
  rw [fresh_callbacks hn hu hdone hnew] at hnext ⊢
  rw [← List.append_assoc, ← List.append_assoc] at hnext
  rw [← List.append_assoc done, ← List.append_assoc (done ++ [_]), List.findSome?_append,
    List.findSome?_append, List.findSome?_singleton, List.findSome?_singleton]
  have hmid := (List.prefix_append ..).trans hnext
  have hfirst := (List.prefix_append ..).trans hmid
  -- The node itself is open while its producers are walked, but it ranks above them.
  have hopen : p.Closed (p.Below (p.rank id)) (done ++ [.enter n]) := by
    intro m hm hrank
    rcases List.mem_append.mp hm with hm | hm
    · exact List.Subset.trans (hclosed m hm hrank) (List.subset_append_left ..)
    · obtain rfl : m = n := by simpa using hm
      simp [Below, p.id_eq hn] at hrank
  rw [p.visit_eq v hn]
  apply (h.enter_new hfirst hs).bind
  rintro _ s₁ ⟨rfl, hs₁⟩
  apply (hinputs _ s₁ hmid hopen hs₁).bind
  intro _ s₂ hs₂
  exact h.leave_new hnext hs₂

omit hn in
/-- A visit does the callbacks of the walk from its node that have not been done. -/
theorem visit (id : NodeId) : p.Pursues fault? inv stop (p.Below (p.rank id + 1)) (p.visit v id)
    (p.callbacks id) := by
  induction id using p.producers_induction with
  | step id ih =>
    cases hn : p.node? id with
    | none =>
      rw [p.visit_eq_pure _ hn, p.callbacks_of_none hn]
      exact Pursues.nil
    | some n =>
      have hinputs := inputs_pursue hn fun c ch hc hch => ih n c ch hn hc hch
      intro done s hnext hclosed hs
      have hdone : done <+: p.schedule := (List.prefix_append ..).trans hnext
      have hbelow : p.Closed (p.Below (p.rank id)) done :=
        hclosed.mono fun m hm => Nat.lt_succ_of_lt hm
      cases hu : n.isUnion with
      | true => exact h.visit_union hn hu hinputs hnext hbelow hs
      | false =>
        by_cases hentered : .enter n ∈ done
        · -- A node that has been entered is closed here, so nothing of its walk is left.
          have hid := p.id_eq hn
          have hsub : p.callbacks id ⊆ done :=
            hid ▸ hclosed n hentered (by simp [Below, hid])
          rw [fresh_eq_nil hsub, List.append_nil]
          exact h.visit_old hn hdone hs hentered
        · exact h.visit_new hn hu hinputs hnext hbelow hs hentered

omit hn in
/-- The walk of a visitor that heeds the schedule keeps its invariant along the schedule, or the first
fault of a callback shows. -/
theorem walk (hs : inv [] s) : Ends (p.walk v) s (p.schedule.findSome? fault?)
    (fun _ => inv p.schedule) stop := by
  have hwalk : p.Pursues fault? inv stop (fun _ => True) (p.walk v)
      (p.sinks.flatMap p.callbacks) := by
    rw [walk_eq_depthFirst]
    exact Pursues.forM (fun id _ => whole_callbacks id) fun id _ =>
      (h.visit id).mono fun _ _ => trivial
  exact hwalk [] s (List.prefix_refl _) (fun n hn => absurd hn List.not_mem_nil) hs

end Heeds

end

end Plan

end Dataflow
