import Mathlib.Data.List.Basic
import Dataflow.Proofs.Frames
import Dataflow.Proofs.Heeding

/-! # Walks moment by moment

    A visitor is watched: for every callback that it is given, the callback is
    written down with the state that it is made in, whether it fails or not. So
    the log of a walk shows every state between two callbacks, and what has been
    called by then.

    A walk makes more callbacks than the schedule has: it comes back to nodes that
    it has entered, and it goes through unions. What a visitor that heeds the
    schedule holds at a moment is what its invariant says of the callbacks that
    count by then.

    Main statements:
    - `echoes_walk`: a visitor that is watched walks as it does unwatched
    - `Heeds.chronicle`: what holds at every moment of a walk that heeds the
      schedule
-/

namespace Dataflow

namespace Plan

variable {σ ε : Type}

/-! ## Section 1: Visitors that are watched -/

/-- A callback of a walk and the state that it is made in. -/
structure Moment (σ : Type) where
  /-- The callback. -/
  callback : Callback
  /-- The state. -/
  state : σ

/-- A result whose state has a log beside it. -/
def withLog {α : Type} (log : List (Moment σ)) :
    EStateM.Result ε σ α → EStateM.Result ε (σ × List (Moment σ)) α
  | .ok a s => .ok a (s, log)
  | .error e s => .error e (s, log)

/-- A callback that is written down before it is made. -/
def watched {α : Type} (cb : Callback) (m : EStateM ε σ α) : EStateM ε (σ × List (Moment σ)) α :=
  fun (s, log) => withLog (log ++ [⟨cb, s⟩]) (m s)

/-- The visitor that is watched. -/
def Visitor.watching (v : Visitor σ ε) : Visitor (σ × List (Moment σ)) ε where
  enter n := watched (.enter n) (v.enter n)
  leave n := watched (.leave n) (v.leave n)

/-- The callbacks of a log. -/
def historyOf (log : List (Moment σ)) : List Callback := log.map Moment.callback

/-- A point of a run between two callbacks, with the callbacks before it and its state: before each
callback, and at the end if no callback fails. -/
inductive Point (log : List (Moment σ)) (result : EStateM.Result ε σ Unit) :
    List Callback → σ → Prop where
  | before {earlier later : List (Moment σ)} {moment : Moment σ}
      (h : log = earlier ++ moment :: later) : Point log result (historyOf earlier) moment.state
  | last {s : σ} (h : result = .ok () s) : Point log result (historyOf log) s

/-- A computation does what another one does and keeps a log. -/
def Echoes {α : Type} (m : EStateM ε σ α) (m' : EStateM ε (σ × List (Moment σ)) α) : Prop :=
  ∀ s log, ∃ log', m' (s, log) = withLog log' (m s)

theorem Echoes.sequential : @Sequential σ (σ × List (Moment σ)) ε ε Echoes where
  pure _ _ log := ⟨log, rfl⟩
  bind := by
    intro α β m m' f f' h hf s log
    obtain ⟨log', hm'⟩ := h s log
    simp only [Bind.bind, EStateM.bind, hm']
    cases m s with
    | error e s' => exact ⟨log', rfl⟩
    | ok a s' => exact hf a s' log'

/-- A visitor that is watched walks as it does unwatched. -/
theorem echoes_walk (p : Plan) (v : Visitor σ ε) : Echoes (p.walk v) (p.walk v.watching) :=
  Echoes.sequential.walk p v v.watching (fun _ _ _ => ⟨_, rfl⟩) fun _ _ _ => ⟨_, rfl⟩

/-! ## Section 2: Histories -/

/-- Some callbacks are those of a history that count: each node but a union is entered once and left
once. -/
structure Tracks (p : Plan) (history done : List Callback) : Prop where
  /-- Only nodes of the plan are called. -/
  node : ∀ cb ∈ history, p.node? cb.node.id = some cb.node
  /-- What counts is what is for no union. -/
  mem : ∀ cb, cb ∈ done ↔ cb ∈ history ∧ cb.node.isUnion = false
  /-- The leaving of a node comes once, so it counts each time. -/
  left : done.filterMap Callback.left? =
    (history.filterMap Callback.left?).filter fun n => !n.isUnion

namespace Tracks

variable {p : Plan} {history done : List Callback}

theorem nil : p.Tracks [] [] := ⟨by simp, by simp, rfl⟩

/-- One more node of the plan is called. -/
theorem node_concat (h : p.Tracks history done) {cb : Callback}
    (hn : p.node? cb.node.id = some cb.node) :
    ∀ other ∈ history ++ [cb], p.node? other.node.id = some other.node := by
  intro other hother
  rcases List.mem_append.mp hother with hother | hother
  · exact h.node other hother
  · exact List.mem_singleton.mp hother ▸ hn

/-- A callback for a union does not count. -/
theorem union (h : p.Tracks history done) {cb : Callback} (hn : p.node? cb.node.id = some cb.node)
    (hu : cb.node.isUnion = true) : p.Tracks (history ++ [cb]) done where
  node := h.node_concat hn
  mem other := by
    rw [h.mem, List.mem_append, List.mem_singleton]
    constructor
    · rintro ⟨hmem, hother⟩
      exact ⟨.inl hmem, hother⟩
    · rintro ⟨hmem | rfl, hother⟩
      · exact ⟨hmem, hother⟩
      · rw [hu] at hother
        contradiction
  left := by
    rw [List.filterMap_append, List.filter_append, h.left]
    cases cb with
    | enter n => simp [Callback.left?]
    | leave n =>
      have hu : n.isUnion = true := hu
      simp [Callback.left?, hu]

/-- To come back to a node that has been entered does not count. -/
theorem again (h : p.Tracks history done) {n : Node} (hn : p.node? n.id = some n)
    (hold : .enter n ∈ done) : p.Tracks (history ++ [.enter n]) done where
  node := h.node_concat hn
  mem other := by
    rw [h.mem, List.mem_append, List.mem_singleton]
    constructor
    · rintro ⟨hmem, hother⟩
      exact ⟨.inl hmem, hother⟩
    · rintro ⟨hmem | rfl, hother⟩
      · exact ⟨hmem, hother⟩
      · exact ⟨((h.mem _).mp hold).1, hother⟩
  left := by
    rw [List.filterMap_append, List.filter_append, h.left]
    simp [Callback.left?]

/-- Any other callback counts. -/
theorem next (h : p.Tracks history done) {cb : Callback} (hn : p.node? cb.node.id = some cb.node)
    (hu : cb.node.isUnion = false) : p.Tracks (history ++ [cb]) (done ++ [cb]) where
  node := h.node_concat hn
  mem other := by
    rw [List.mem_append, List.mem_append, h.mem, List.mem_singleton]
    constructor
    · rintro (⟨hmem, hother⟩ | rfl)
      · exact ⟨.inl hmem, hother⟩
      · exact ⟨.inr rfl, hu⟩
    · rintro ⟨hmem | rfl, hother⟩
      · exact .inl ⟨hmem, hother⟩
      · exact .inr rfl
  left := by
    rw [List.filterMap_append, List.filterMap_append, List.filter_append, h.left]
    cases cb with
    | enter n => rfl
    | leave n =>
      have hu : n.isUnion = false := hu
      simp [Callback.left?, hu]

end Tracks

/-! ## Section 3: Logs -/

/-- An invariant holds after a history: it holds of the callbacks of the schedule that count. -/
def Held (p : Plan) (inv : List Callback → σ → Prop) (history : List Callback) (s : σ) : Prop :=
  ∃ done, done <+: p.schedule ∧ p.Tracks history done ∧ inv done s

/-- The turn of a callback has come: a node is left when everything below its inputs has been called,
also if it is a union. -/
def Due (p : Plan) (history : List Callback) : Callback → Prop
  | .enter _ => True
  | .leave n => ∀ c ∈ n.inputs, p.callbacksOf c ⊆ history

/-- At every moment of a log an invariant holds, and the turn of its callback has come. -/
def Chronicles (p : Plan) (inv : List Callback → σ → Prop) (log : List (Moment σ)) : Prop :=
  ∀ earlier moment later, log = earlier ++ moment :: later →
    p.Held inv (historyOf earlier) moment.state ∧ p.Due (historyOf earlier) moment.callback

variable {p : Plan} {inv : List Callback → σ → Prop} {log : List (Moment σ)}

theorem Chronicles.nil : p.Chronicles inv [] := by
  intro earlier moment later h
  simp at h

theorem Chronicles.concat (h : p.Chronicles inv log) {cb : Callback} {s : σ}
    (hheld : p.Held inv (historyOf log) s) (hdue : p.Due (historyOf log) cb) :
    p.Chronicles inv (log ++ [⟨cb, s⟩]) := by
  intro earlier moment later hsplit
  rcases List.eq_nil_or_concat' later with rfl | ⟨later, last, rfl⟩
  · obtain ⟨rfl, hmoment⟩ := List.append_inj' hsplit rfl
    obtain rfl : ⟨cb, s⟩ = moment := List.head_eq_of_cons_eq hmoment
    exact ⟨hheld, hdue⟩
  · rw [← List.cons_append, ← List.append_assoc] at hsplit
    obtain ⟨hsplit, -⟩ := List.append_inj' hsplit rfl
    exact h earlier moment later hsplit

/-! ## Section 4: Visitors that heed the schedule -/

/-- What is kept while a visitor is watched: its invariant, the callbacks that count, and what the log
shows. -/
structure Watch (p : Plan) (inv : List Callback → σ → Prop) (done : List Callback)
    (s : σ × List (Moment σ)) : Prop where
  /-- The invariant holds. -/
  holds : inv done s.1
  /-- What is done is what counts of the log. -/
  tracks : p.Tracks (historyOf s.2) done
  /-- The invariant has held at every moment. -/
  chronicles : p.Chronicles inv s.2

/-- A callback that is watched ends as it does unwatched, with one more moment in the log. -/
theorem ends_watched {α : Type} {cb : Callback} {m : EStateM ε σ α} {s : σ} {fault : Option ε}
    {post : α → σ → Prop} {stop : σ → Prop} {post' : α → σ × List (Moment σ) → Prop}
    {stop' : σ × List (Moment σ) → Prop} (h : Ends m s fault post stop)
    (hpost : ∀ a s', post a s' → post' a (s', log ++ [⟨cb, s⟩]))
    (hstop : ∀ s', stop' (s', log ++ [⟨cb, s⟩])) :
    Ends (watched cb m) (s, log) fault post' stop' := by
  cases fault with
  | some e =>
    obtain ⟨s', hm, -⟩ := h
    exact ⟨(s', _), by simp only [Plan.watched, hm, withLog], hstop s'⟩
  | none =>
    obtain ⟨a, s', hm, hs'⟩ := h
    exact ⟨a, (s', _), by simp only [Plan.watched, hm, withLog], hpost a s' hs'⟩

theorem historyOf_concat (log : List (Moment σ)) (cb : Callback) (s : σ) :
    historyOf (log ++ [⟨cb, s⟩]) = historyOf log ++ [cb] := by
  simp [historyOf]

namespace Watch

variable {done : List Callback} {s : σ × List (Moment σ)}

/-- One more moment of which the invariant holds, if the turn of its callback has come. -/
theorem chronicle (h : p.Watch inv done s) (cb : Callback) (hdone : done <+: p.schedule)
    (hdue : ∀ n, cb = .leave n → ∀ c ∈ n.inputs, p.callbacksOf c ⊆ done) :
    p.Chronicles inv (s.2 ++ [⟨cb, s.1⟩]) := by
  apply h.chronicles.concat ⟨done, hdone, h.tracks, h.holds⟩
  cases cb with
  | enter n => trivial
  | leave n =>
    intro c hc other hother
    exact ((h.tracks.mem _).mp (hdue n rfl c hc hother)).1

end Watch

variable {v : Visitor σ ε} {fault? : Callback → Option ε} {stop : σ → Prop}

/-- A visitor that is watched heeds the schedule as it does unwatched. -/
theorem Heeds.watching (h : p.Heeds v fault? inv stop) :
    p.Heeds v.watching fault? (p.Watch inv) fun s => p.Chronicles inv s.2 where
  enter_union := fun {done s n} hdone hs hn hu => by
    have hlog := hs.chronicle (.enter n) hdone (by simp)
    apply ends_watched (h.enter_union hdone hs.holds hn hu) _ fun _ => hlog
    rintro entered s' ⟨hentered, hs'⟩
    exact ⟨hentered, hs', historyOf_concat .. ▸ hs.tracks.union hn hu, hlog⟩
  leave_union := fun {done s n} hdone hs hn hu hbelow => by
    have hlog := hs.chronicle (.leave n) hdone (by simpa using hbelow)
    apply ends_watched (h.leave_union hdone hs.holds hn hu hbelow) _ fun _ => hlog
    intro _ s' hs'
    exact ⟨hs', historyOf_concat .. ▸ hs.tracks.union hn hu, hlog⟩
  enter_old := fun {done s n} hdone hs hn => by
    have hlog := hs.chronicle (.enter n) hdone (by simp)
    apply ends_watched (h.enter_old hdone hs.holds hn) _ fun _ => hlog
    rintro entered s' ⟨hentered, hs'⟩
    exact ⟨hentered, hs', historyOf_concat .. ▸ hs.tracks.again (node_of_done hdone hn).1 hn, hlog⟩
  enter_new := fun {done s n} hnext hs => by
    have hdone : done <+: p.schedule := (List.prefix_append ..).trans hnext
    have ⟨hn, hu⟩ := node_of_done hnext (List.mem_append_right done (List.mem_singleton_self _))
    have hlog := hs.chronicle (.enter n) hdone (by simp)
    apply ends_watched (h.enter_new hnext hs.holds) _ fun _ => hlog
    rintro entered s' ⟨hentered, hs'⟩
    exact ⟨hentered, hs', historyOf_concat .. ▸ hs.tracks.next hn hu, hlog⟩
  leave_new := fun {done s n} hnext hs => by
    have hdone : done <+: p.schedule := (List.prefix_append ..).trans hnext
    have ⟨hn, hu⟩ := node_of_done hnext (List.mem_append_right done (List.mem_singleton_self _))
    obtain ⟨rest, hrest⟩ := hnext
    have hsplit : p.schedule = done ++ .leave n :: rest := by simp [← hrest]
    have hready := (p.ready_of_schedule hsplit).2
    have hlog := hs.chronicle (.leave n) hdone (by simpa using hready.2)
    apply ends_watched (h.leave_new ⟨rest, hrest⟩ hs.holds) _ fun _ => hlog
    intro _ s' hs'
    exact ⟨hs', historyOf_concat .. ▸ hs.tracks.next hn hu, hlog⟩

/-- The log of a walk that heeds the schedule shows its invariant at every moment, up to the first
fault, and the invariant holds at the end if there is none. -/
theorem Heeds.chronicle (h : p.Heeds v fault? inv stop) {s : σ} (hs : inv [] s) :
    ∃ log, p.walk v.watching (s, []) = withLog log (p.walk v s) ∧ p.Chronicles inv log ∧
      ∀ history s', Point log (p.walk v s) history s' → p.Held inv history s' := by
  obtain ⟨log, hlog⟩ := echoes_walk p v s []
  have hends := h.watching.walk (s := (s, [])) ⟨hs, .nil, .nil⟩
  suffices hwatch : p.Chronicles inv log ∧
      ∀ s', p.walk v s = .ok () s' → p.Held inv (historyOf log) s' by
    refine ⟨log, hlog, hwatch.1, fun history s' hpoint => ?_⟩
    cases hpoint with
    | before hsplit => exact (hwatch.1 _ _ _ hsplit).1
    | last hresult => exact hwatch.2 s' hresult
  cases hfault : p.schedule.findSome? fault? with
  | some e =>
    rw [hfault] at hends
    obtain ⟨_, hwatching, hchronicles⟩ := hends
    rw [hlog] at hwatching
    cases hwalk : p.walk v s with
    | ok _ _ => simp [hwalk, withLog] at hwatching
    | error _ _ =>
      rw [hwalk] at hwatching
      cases hwatching
      exact ⟨hchronicles, by simp⟩
  | none =>
    rw [hfault] at hends
    obtain ⟨_, _, hwatching, hwatch⟩ := hends
    rw [hlog] at hwatching
    cases hwalk : p.walk v s with
    | error _ _ => simp [hwalk, withLog] at hwatching
    | ok _ s' =>
      rw [hwalk] at hwatching
      cases hwatching
      refine ⟨hwatch.chronicles, ?_⟩
      rintro _ ⟨⟩
      exact ⟨p.schedule, List.prefix_rfl, hwatch.tracks, hwatch.holds⟩

end Plan

end Dataflow
