import Mathlib.Order.Defs.Unbundled
import Dataflow.Proofs.Schedule
import Dataflow.Proofs.Walk

/-! # Computations that keep something

    A computation over a state keeps a relation if it leads from every state to
    one that is related to it, whether it succeeds or fails. What single steps
    keep is kept by their sequences and by whole walks, for the relations that
    are reflexive and transitive.

    A walk is a sequence of callbacks and nothing else. So whatever passes from
    computations to their sequences passes from the callbacks of a visitor to its
    walk, also where it is about two visitors at once.

    Main statements:
    - `Sequential.walk`: what passes to sequences passes to walks
    - `keeps_walk`: a walk keeps what the callbacks of its visitor keep
-/

namespace Dataflow

/-! ## Section 1: What passes to sequences -/

/-- A relation between computations that holds where they only answer, and passes to sequences of
them. -/
structure Sequential {σ σ' ε ε' : Type}
    (rel : {α : Type} → EStateM ε σ α → EStateM ε' σ' α → Prop) : Prop where
  /-- It holds of the computations that answer the same. -/
  pure : ∀ {α : Type} (a : α), rel (pure a) (pure a)
  /-- It holds of sequences if it holds of their parts. -/
  bind : ∀ {α β : Type} {m : EStateM ε σ α} {m' : EStateM ε' σ' α} {f : α → EStateM ε σ β}
    {f' : α → EStateM ε' σ' β}, rel m m' → (∀ a, rel (f a) (f' a)) → rel (m >>= f) (m' >>= f')

namespace Sequential

variable {σ σ' ε ε' : Type} {rel : {α : Type} → EStateM ε σ α → EStateM ε' σ' α → Prop}
  (h : Sequential rel)
include h

theorem forM {α : Type} {l : List α} (f : α → EStateM ε σ Unit) (f' : α → EStateM ε' σ' Unit)
    (hf : ∀ a ∈ l, rel (f a) (f' a)) : rel (ForM.forM l f) (ForM.forM l f') := by
  induction l with
  | nil => exact h.pure ()
  | cons a rest ih =>
    rw [List.forM_cons, List.forM_cons]
    apply h.bind (hf a (List.mem_cons_self ..))
    intro _
    exact ih fun b hb => hf b (List.mem_cons_of_mem _ hb)

section
variable (p : Plan) (v : Plan.Visitor σ ε) (v' : Plan.Visitor σ' ε')
  (henter : ∀ n, rel (v.enter n) (v'.enter n)) (hleave : ∀ n, rel (v.leave n) (v'.leave n))
include henter hleave

theorem visit (id : NodeId) : rel (p.visit v id) (p.visit v' id) := by
  -- The induction goes up: between the entering and the leaving only producers are visited.
  induction id using p.producers_induction with
  | step id ih =>
    cases hn : p.node? id with
    | none =>
      rw [p.visit_eq_pure v hn, p.visit_eq_pure v' hn]
      exact h.pure ()
    | some n =>
      rw [p.visit_eq v hn, p.visit_eq v' hn]
      apply h.bind (henter n)
      intro entered
      cases entered with
      | false => exact h.pure ()
      | true =>
        apply h.bind _ fun _ => hleave n
        apply h.forM
        intro c hc
        unfold Plan.visitSource
        cases hch : p.channel? c with
        | none => exact h.pure ()
        | some ch => exact ih n c ch hn hc hch

/-- What passes to sequences holds of walks if it holds of the callbacks. -/
theorem walk : rel (p.walk v) (p.walk v') := by
  rw [p.walk_eq_depthFirst, p.walk_eq_depthFirst]
  apply h.forM
  intro id _
  exact h.visit p v v' henter hleave id

end

end Sequential

/-! ## Section 2: Steps -/

/-- From every state the computation leads to a related one. -/
def Keeps {σ ε α : Type} (rel : σ → σ → Prop) (m : EStateM ε σ α) : Prop :=
  ∀ s, match m s with
    | .ok _ s' => rel s s'
    | .error _ s' => rel s s'

namespace Keeps

variable {σ ε α β : Type} {rel : σ → σ → Prop}

theorem ok {m : EStateM ε σ α} (h : Keeps rel m) {s s' : σ} {a : α} (hm : m s = .ok a s') :
    rel s s' := by
  have := h s
  rwa [hm] at this

theorem error {m : EStateM ε σ α} (h : Keeps rel m) {s s' : σ} {e : ε} (hm : m s = .error e s') :
    rel s s' := by
  have := h s
  rwa [hm] at this

/-- What keeps a relation keeps any wider one. -/
theorem mono {rel' : σ → σ → Prop} {m : EStateM ε σ α} (h : Keeps rel m)
    (himp : ∀ s s', rel s s' → rel' s s') : Keeps rel' m := by
  intro s
  have hs := h s
  cases hm : m s <;> rw [hm] at hs <;> exact himp _ _ hs

section
variable [Std.Refl rel]

theorem pure (a : α) : Keeps rel (Pure.pure a : EStateM ε σ α) := fun s => Std.Refl.refl s

theorem throw (e : ε) : Keeps rel (MonadExcept.throw e : EStateM ε σ α) := fun s => Std.Refl.refl s

theorem get : Keeps rel (MonadState.get : EStateM ε σ σ) := fun s => Std.Refl.refl s

/-- A computation that goes on behind a condition, and fails where it holds. -/
theorem guarded {c : Prop} [Decidable c] (e : ε) {m : PUnit → EStateM ε σ α}
    (h : Keeps rel (m ⟨⟩)) :
    Keeps rel (if c then do { let r ← MonadExcept.throw e; m r } else m ⟨⟩) := by
  by_cases hc : c
  · rw [if_pos hc]
    exact throw e
  · rw [if_neg hc]
    exact h

end

/-- A computation that takes a state to one and the same result keeps what this result keeps. -/
theorem modify {f : σ → σ} (h : ∀ s, rel s (f s)) : Keeps rel (modify f : EStateM ε σ Unit) :=
  fun s => h s

theorem adaptExcept {ε' : Type} {m : EStateM ε σ α} (wrap : ε → ε') (h : Keeps rel m) :
    Keeps rel (EStateM.adaptExcept wrap m) := by
  intro s
  have hs := h s
  simp only [EStateM.adaptExcept]
  cases hm : m s <;> rw [hm] at hs <;> exact hs

/-! ## Section 3: Sequences -/

variable [IsTrans σ rel]

theorem bind {m : EStateM ε σ α} {f : α → EStateM ε σ β} (h : Keeps rel m)
    (h' : ∀ a, Keeps rel (f a)) : Keeps rel (m >>= f) := by
  intro s
  simp only [Bind.bind, EStateM.bind]
  cases hm : m s with
  | error e s' => exact h.error hm
  | ok a s' =>
    have hs := h.ok hm
    show match f a s' with | .ok _ s'' => rel s s'' | .error _ s'' => rel s s''
    cases hf : f a s' with
    | ok b s'' => exact IsTrans.trans _ _ _ hs ((h' a).ok hf)
    | error e s'' => exact IsTrans.trans _ _ _ hs ((h' a).error hf)

theorem sequential [Std.Refl rel] :
    @Sequential σ σ ε ε fun m _ => Keeps rel m where
  pure := Keeps.pure
  bind := Keeps.bind

theorem forM [Std.Refl rel] {l : List α} {f : α → EStateM ε σ Unit} (h : ∀ a ∈ l, Keeps rel (f a)) :
    Keeps rel (ForM.forM l f) :=
  sequential.forM f f h

end Keeps

/-- A walk keeps what the callbacks of its visitor keep. -/
theorem Plan.keeps_walk {σ ε : Type} {rel : σ → σ → Prop} [Std.Refl rel] [IsTrans σ rel] {p : Plan}
    {v : Visitor σ ε} (henter : ∀ n, Keeps rel (v.enter n)) (hleave : ∀ n, Keeps rel (v.leave n)) :
    Keeps rel (p.walk v) :=
  Keeps.sequential.walk p v v henter hleave

end Dataflow
