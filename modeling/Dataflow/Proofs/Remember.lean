import Dataflow.Proofs.Heeding

/-! # Walks of visitors that remember

    A visitor that remembers enters a node only when it has not entered it
    before. So it heeds the schedule: its walk does each callback once and in
    order.

    Main statements:
    - `walk_runs`: the walk of a visitor that remembers does all callbacks of
      the schedule, up to the first fault
    - `visits_eq`: a walk that records its visits records the schedule
-/

namespace Dataflow

namespace Plan

variable {p : Plan} {done : List Callback}

/-! ## Section 1: Visitors that remember -/

/-- A visitor enters every node once but passes through unions each time: what it holds after some
callbacks it holds after the next one, unless that has a fault. -/
structure Remembers {σ ε : Type} (p : Plan) (v : Visitor σ ε)
    (act : Callback → EStateM ε σ Unit) (fault? : Callback → Option ε)
    (holds : List Callback → σ → Prop) : Prop where
  /-- A union is entered each time. -/
  union_enter : ∀ {done : List Callback} {s : σ} {n : Node}, done <+: p.schedule → holds done s →
    p.node? n.id = some n → n.isUnion = true → v.enter n s = .ok true s
  /-- Nothing happens when a union is left. -/
  union_leave : ∀ {n : Node}, n.isUnion = true → v.leave n = pure ()
  /-- A node that has been entered is not entered again. -/
  enter_old : ∀ {done : List Callback} {s : σ} {n : Node}, done <+: p.schedule → holds done s →
    .enter n ∈ done → v.enter n s = .ok false s
  /-- A node that has not been entered is entered. -/
  enter_new : ∀ {done : List Callback} {s : σ} {n : Node}, done ++ [.enter n] <+: p.schedule →
    holds done s → v.enter n s = (act (.enter n) >>= fun _ => pure true) s
  /-- A node is left after it has been entered. -/
  leave : ∀ {n : Node}, n.isUnion = false → v.leave n = act (.leave n)
  /-- A callback whose turn has come either happens or has a fault. -/
  act_runs : ∀ {done : List Callback} {s : σ} {cb : Callback}, done ++ [cb] <+: p.schedule →
    holds done s → Runs (act cb) s (fault? cb) (holds (done ++ [cb]))

section
variable {σ ε : Type} {v : Visitor σ ε} {act : Callback → EStateM ε σ Unit}
  {fault? : Callback → Option ε} {holds : List Callback → σ → Prop}

variable (h : p.Remembers v act fault? holds)
include h

/-- A visitor that remembers heeds the schedule. -/
theorem Remembers.heeds : p.Heeds v fault? holds fun _ => True where
  enter_union := fun hdone hs hn hu => ⟨true, _, h.union_enter hdone hs hn hu, rfl, hs⟩
  leave_union := fun {_ s _} _ hs _ hu _ => ⟨(), s, congrFun (h.union_leave hu) s, hs⟩
  enter_old := fun hdone hs hn => ⟨false, _, h.enter_old hdone hs hn, rfl, hs⟩
  enter_new := fun {done s n} hnext hs => by
    rw [← Option.or_none (o := fault? (.enter n))]
    apply Ends.congr (h.enter_new hnext hs)
    apply (h.act_runs hnext hs).ends.bind
    intro _ s' hs'
    exact Ends.pure ⟨rfl, hs'⟩
  leave_new := fun {done s n} hnext hs => by
    have hmem : .leave n ∈ done ++ [.leave n] := List.mem_append_right _ (List.mem_singleton_self _)
    have hu : n.isUnion = false := (node_of_done hnext hmem).2
    rw [h.leave hu]
    exact (h.act_runs hnext hs).ends

/-- What a visitor holds may be more, if its callbacks keep that as well. -/
theorem Remembers.and {also : List Callback → σ → Prop}
    (hact : ∀ {done : List Callback} {cb : Callback} {s s' : σ}, done ++ [cb] <+: p.schedule →
      holds done s → act cb s = .ok () s' → holds (done ++ [cb]) s' → also done s →
        also (done ++ [cb]) s') :
    p.Remembers v act fault? fun done s => holds done s ∧ also done s where
  union_enter := fun hdone hs => h.union_enter hdone hs.1
  union_leave := h.union_leave
  enter_old := fun hdone hs => h.enter_old hdone hs.1
  enter_new := fun hnext hs => h.enter_new hnext hs.1
  leave := h.leave
  act_runs := fun {done s cb} hnext hs => by
    have hrun := h.act_runs hnext hs.1
    cases hfault : fault? cb with
    | some e => rwa [hfault] at hrun
    | none =>
      rw [hfault] at hrun
      obtain ⟨s', hrun, hs'⟩ := hrun
      exact ⟨s', hrun, hs', hact hnext hs.1 hrun hs' hs.2⟩

/-- The walk of a visitor that remembers does all callbacks of the schedule, or the first fault of one
shows. -/
theorem walk_runs {s : σ} (hs : holds [] s) :
    Runs (p.walk v) s (p.schedule.findSome? fault?) (holds p.schedule) :=
  (h.heeds.walk hs).runs

end

/-! ## Section 2: The order of visits -/

/-- The nodes other than unions that a walk has entered and left, first to last. -/
structure Visits where
  /-- The nodes that have been entered. -/
  entered : List Node := []
  /-- The nodes that have been left. -/
  left : List Node := []

/-- The visitor that records when a node other than a union is first entered and when it is left. -/
def recorder : Visitor Visits Empty where
  enter n := fun visits =>
    if n.isUnion then .ok true visits
    else if n ∈ visits.entered then .ok false visits
    else .ok true { visits with entered := visits.entered ++ [n] }
  leave n := fun visits =>
    .ok () (if n.isUnion then visits else { visits with left := visits.left ++ [n] })

/-- The visits of a walk over a plan. -/
def visits (p : Plan) : Visits :=
  match p.walk recorder {} with
  | .ok _ visits => visits
  | .error e _ => nomatch e

/-- The nodes of the callbacks that are done. -/
def Visits.of (done : List Callback) : Visits where
  entered := done.filterMap Callback.entered?
  left := done.filterMap Callback.left?

/-- The recorder enters every node but a union once, and holds what has been visited. -/
theorem remembers_recorder : p.Remembers recorder
    (fun cb visits => .ok () ⟨visits.entered ++ cb.entered?.toList, visits.left ++ cb.left?.toList⟩)
    (fun _ => none) (fun done visits => visits = .of done) where
  union_enter := fun _ _ _ hu => by simp [recorder, hu]
  union_leave := fun hu => by
    simp only [recorder, hu, if_true]
    rfl
  enter_old := fun {done visits n} hdone hs hn => by
    have hu : n.isUnion = false := (node_of_done hdone hn).2
    have hmem : n ∈ visits.entered := by
      rw [hs]
      exact mem_filterMap_entered?.mpr hn
    simp [recorder, hu, hmem]
  enter_new := fun {done visits n} hnext hs => by
    obtain ⟨rest, hrest⟩ := hnext
    have hsplit : p.schedule = done ++ .enter n :: rest := by simp [← hrest]
    have hnode := p.mem_schedule.mp (show .enter n ∈ p.schedule by simp [hsplit])
    have hu : n.isUnion = false := hnode.2.1
    -- Only the entering of a node records it as entered.
    have hmem : n ∉ visits.entered := by
      rw [hs, Visits.of, mem_filterMap_entered?]
      exact (p.ready_of_schedule hsplit).1
    simp only [recorder, hu, if_neg hmem]
    simp [bind, EStateM.bind, pure, EStateM.pure, Callback.entered?, Callback.left?]
  leave := fun hu => by
    funext visits
    simp [recorder, hu, Callback.entered?, Callback.left?]
  act_runs := fun {done visits cb} _ hs => by
    refine ⟨_, rfl, ?_⟩
    rw [hs]
    simp only [Visits.of, List.filterMap_append]
    cases cb <;> rfl

/-- A walk enters and leaves the nodes in the order of the schedule. -/
theorem visits_eq (p : Plan) : p.visits = ⟨p.entered, p.left⟩ := by
  obtain ⟨seen, hwalk, hseen⟩ :
      ∃ seen, p.walk recorder {} = .ok () seen ∧ seen = Visits.of p.schedule := by
    have hrun := walk_runs (p := p) remembers_recorder (s := {}) rfl
    rwa [List.findSome?_eq_none_iff.mpr fun _ _ => rfl] at hrun
  rw [visits, hwalk, hseen]
  rfl

end Plan

end Dataflow
