/-! # Computations that fail with a given fault

    A computation over a state either fails with a fault that is known before it
    runs, or without one ends in a state with a property. Such statements are
    put together the way computations are: one after another, in a loop, and
    under a wrapper for errors. Where it matters what a computation answers, or
    what it leaves behind when it fails, these are part of the statement.
-/

namespace Dataflow

/-! ## Section 1: Steps on a state -/

theorem get_apply {σ ε : Type} (s : σ) : (get : EStateM ε σ σ) s = .ok s s := rfl

theorem modify_apply {σ ε : Type} (f : σ → σ) (s : σ) :
    (modify f : EStateM ε σ Unit) s = .ok () (f s) := rfl

/-! ## Section 2: Runs -/

/-- A computation fails with a given error, or without one ends in a state with a property. -/
def Runs {σ ε : Type} (m : EStateM ε σ Unit) (s : σ) (fault : Option ε) (post : σ → Prop) : Prop :=
  match fault with
  | some e => ∃ s', m s = .error e s'
  | none => ∃ s', m s = .ok () s' ∧ post s'

namespace Runs

variable {σ ε : Type} {s : σ} {post : σ → Prop}

theorem congr {m m' : EStateM ε σ Unit} {fault : Option ε} (heq : m s = m' s)
    (h : Runs m' s fault post) : Runs m s fault post := by
  cases fault with
  | some e =>
    obtain ⟨s', hm⟩ := h
    exact ⟨s', heq.trans hm⟩
  | none =>
    obtain ⟨s', hm, hs'⟩ := h
    exact ⟨s', heq.trans hm, hs'⟩

/-- One computation after another fails with the first fault. -/
theorem bind {m m' : EStateM ε σ Unit} {fault fault' : Option ε} {mid : σ → Prop}
    (h : Runs m s fault mid) (h' : ∀ s', mid s' → Runs m' s' fault' post) :
    Runs (m >>= fun _ => m') s (fault.or fault') post := by
  cases fault with
  | some e =>
    obtain ⟨s', hm⟩ := h
    exact ⟨s', by simp [Bind.bind, EStateM.bind, hm]⟩
  | none =>
    obtain ⟨s', hm, hs'⟩ := h
    have hbind : (m >>= fun _ => m') s = m' s' := by simp [Bind.bind, EStateM.bind, hm]
    simpa [Runs, hbind] using h' s' hs'

/-- A loop fails with the first fault of a round, when each round keeps what the rounds before it
have reached. -/
theorem forM {α : Type} {l : List α} {f : α → EStateM ε σ Unit} {fault : α → Option ε}
    (inv : List α → σ → Prop)
    (h : ∀ pre x post, l = pre ++ x :: post → ∀ s, inv pre s →
      Runs (f x) s (fault x) (inv (pre ++ [x])))
    (hs : inv [] s) : Runs (ForM.forM l f) s (l.findSome? fault) (inv l) := by
  suffices hgen : ∀ (rest pre : List α) (s : σ), l = pre ++ rest → inv pre s →
      Runs (ForM.forM rest f) s (rest.findSome? fault) (inv l) from hgen l [] s rfl hs
  -- Induction on the rounds that are left; the invariant speaks about the ones before.
  intro rest
  induction rest with
  | nil =>
    intro pre s hl hs
    rw [List.append_nil] at hl
    exact hl ▸ ⟨s, rfl, hs⟩
  | cons x rest ih =>
    intro pre s hl hs
    rw [List.forM_cons, List.findSome?_cons]
    have := bind (h pre x rest hl s hs) fun s' hs' => ih (pre ++ [x]) s' (by simp [hl]) hs'
    cases hx : fault x <;> simpa [hx] using this

/-- A step that is wrapped with its node fails with the wrapped fault. -/
theorem adaptExcept {ε' : Type} {m : EStateM ε σ Unit} {fault : Option ε} (wrap : ε → ε')
    (h : Runs m s fault post) : Runs (EStateM.adaptExcept wrap m) s (fault.map wrap) post := by
  cases fault with
  | some e =>
    obtain ⟨s', hm⟩ := h
    exact ⟨s', by simp [EStateM.adaptExcept, hm]⟩
  | none =>
    obtain ⟨s', hm, hs'⟩ := h
    exact ⟨s', by simp [EStateM.adaptExcept, hm], hs'⟩

end Runs

/-! ## Section 3: Answers and failures -/

/-- A computation fails with a given error in a state with a property, or without one has an answer
and ends in a state with another property. -/
def Ends {σ ε α : Type} (m : EStateM ε σ α) (s : σ) (fault : Option ε) (post : α → σ → Prop)
    (stop : σ → Prop) : Prop :=
  match fault with
  | some e => ∃ s', m s = .error e s' ∧ stop s'
  | none => ∃ a s', m s = .ok a s' ∧ post a s'

/-- A computation that runs ends; nothing is said about the state after a failure. -/
theorem Runs.ends {σ ε : Type} {m : EStateM ε σ Unit} {s : σ} {fault : Option ε} {post : σ → Prop}
    (h : Runs m s fault post) : Ends m s fault (fun _ => post) fun _ => True := by
  cases fault with
  | some e =>
    obtain ⟨s', hm⟩ := h
    exact ⟨s', hm, trivial⟩
  | none =>
    obtain ⟨s', hm, hs'⟩ := h
    exact ⟨(), s', hm, hs'⟩

namespace Ends

variable {σ ε α β : Type} {s : σ} {stop : σ → Prop}

theorem runs {m : EStateM ε σ Unit} {fault : Option ε} {post : σ → Prop}
    (h : Ends m s fault (fun _ => post) stop) : Runs m s fault post := by
  cases fault with
  | some e =>
    obtain ⟨s', hm, -⟩ := h
    exact ⟨s', hm⟩
  | none =>
    obtain ⟨_, s', hm, hs'⟩ := h
    exact ⟨s', hm, hs'⟩

theorem pure {a : α} {post : α → σ → Prop} (h : post a s) :
    Ends (Pure.pure a : EStateM ε σ α) s none post stop :=
  ⟨a, s, rfl, h⟩

theorem congr {m m' : EStateM ε σ α} {fault : Option ε} {post : α → σ → Prop} (heq : m s = m' s)
    (h : Ends m' s fault post stop) : Ends m s fault post stop := by
  unfold Ends
  rwa [heq]

/-- One computation after another fails with the first fault. -/
theorem bind {m : EStateM ε σ α} {f : α → EStateM ε σ β} {fault fault' : Option ε}
    {mid : α → σ → Prop} {post : β → σ → Prop} (h : Ends m s fault mid stop)
    (h' : ∀ a s', mid a s' → Ends (f a) s' fault' post stop) :
    Ends (m >>= f) s (fault.or fault') post stop := by
  cases fault with
  | some e =>
    obtain ⟨s', hm, hs'⟩ := h
    exact ⟨s', by simp [Bind.bind, EStateM.bind, hm], hs'⟩
  | none =>
    obtain ⟨a, s', hm, hs'⟩ := h
    have hbind : (m >>= f) s = f a s' := by simp [Bind.bind, EStateM.bind, hm]
    simpa [Ends, hbind] using h' a s' hs'

end Ends

end Dataflow
