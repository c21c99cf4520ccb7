import Dataflow.Plan.Walk

/-! # The two walks agree

    A walk with a stack of its own does what the walk by recursion does. What is
    on the stack is what is left to do: for every node on it, to visit the
    producers behind the inputs that are pending, and then to leave the node.

    Main statement:
    - `walk_eq_depthFirst`: the walk with a stack is the walk by recursion
-/

namespace Dataflow

namespace Plan

variable {σ ε : Type} (p : Plan) (v : Visitor σ ε)

/-! ## Section 1: Visits by recursion -/

/-- Visits the node that a channel starts at. -/
def visitSource (c : ChannelId) : EStateM ε σ Unit :=
  match p.channel? c with
  | none => pure ()
  | some ch => p.visit v ch.source

/-- What is left to do for a node that has been entered. -/
def resume (visit : Visit) : EStateM ε σ Unit := do
  visit.pending.forM (p.visitSource v)
  v.leave visit.node

theorem forM_attach {α : Type} (l : List α) (f : α → EStateM ε σ Unit) :
    (forM l.attach fun x => f x.1) = forM l f := by
  conv => rhs; rw [← List.attach_map_subtype_val l, List.forM_map]

theorem visit_eq {id : NodeId} {n : Node} (hn : p.node? id = some n) :
    p.visit v id =
      (do if (← v.enter n) then p.resume v ⟨n, n.inputs⟩) := by
  rw [visit]
  split
  · simp_all
  · rename_i n' hn'
    obtain rfl : n' = n := by simpa [hn] using hn'.symm
    unfold resume
    congr 1
    funext b
    -- The visitor decides whether anything is left to do.
    cases b
    · simp
    · simp only [if_true]
      congr 1
      refine Eq.trans ?_ (forM_attach n'.inputs (p.visitSource v))
      congr 1
      funext x
      unfold visitSource
      split <;> rename_i h <;> simp [h]

theorem visit_eq_pure {id : NodeId} (hn : p.node? id = none) : p.visit v id = pure () := by
  rw [visit]
  split
  · rfl
  · simp_all

theorem visitSource_eq {c : ChannelId} {n : Node} (h : p.producer? c = some n) :
    p.visitSource v c =
      (do if (← v.enter n) then p.resume v ⟨n, n.inputs⟩) := by
  obtain ⟨ch, hch, hn⟩ := Option.bind_eq_some_iff.mp h
  simp only [visitSource, hch]
  exact p.visit_eq v hn

theorem visitSource_eq_pure {c : ChannelId} (h : p.producer? c = none) :
    p.visitSource v c = pure () := by
  unfold visitSource
  split
  · rfl
  · rename_i ch hch
    exact p.visit_eq_pure v (by simpa [producer?, hch] using h)

theorem resume_nil (n : Node) : p.resume v ⟨n, []⟩ = v.leave n := by
  simp [resume]

theorem resume_cons (n : Node) (c : ChannelId) (rest : List ChannelId) :
    p.resume v ⟨n, c :: rest⟩ =
      (do p.visitSource v c; p.resume v ⟨n, rest⟩) := by
  simp [resume]

/-! ## Section 2: Visits with a stack -/

/-- The walk goes on with the visits on the stack one after another. -/
theorem walkFrom_eq (stack : List Visit) (s : σ) :
    p.walkFrom v stack s = forM stack (p.resume v) s := by
  -- The walk ends with the stack, leaves the node on top, or follows its next input, which may
  -- name nothing, fail, be declined or be entered.
  fun_induction walkFrom p v stack s with
  | case1 s => rfl
  | case2 s n stack e s' h =>
    rw [List.forM_cons, resume_nil]
    simp [bind, EStateM.bind, h]
  | case3 s n stack u s' h ih =>
    rw [List.forM_cons, resume_nil, ih]
    simp [bind, EStateM.bind, h]
  | case4 s n c rest stack h ih =>
    rw [ih, List.forM_cons, List.forM_cons, resume_cons, visitSource_eq_pure p v h]
    rfl
  | case5 s n c rest stack producer h e s' he =>
    rw [List.forM_cons, resume_cons, visitSource_eq p v h]
    simp [bind, EStateM.bind, he]
  | case6 s n c rest stack producer h s' he ih =>
    rw [ih, List.forM_cons, List.forM_cons, resume_cons, visitSource_eq p v h]
    simp [bind, EStateM.bind, he, pure, EStateM.pure]
  | case7 s n c rest stack producer h s' he ih =>
    rw [ih, List.forM_cons, List.forM_cons, List.forM_cons, resume_cons, visitSource_eq p v h]
    simp only [bind_assoc]
    simp only [bind, EStateM.bind, he]
    rfl

/-- The walk with a stack is the walk by recursion. -/
theorem walk_eq_depthFirst : p.walk v = p.depthFirst v := by
  unfold walk depthFirst
  -- Both go over the sinks; what is left to compare is the walk from one of them.
  congr 1
  funext id
  unfold walkNode
  cases hn : p.node? id with
  | none => exact (p.visit_eq_pure v hn).symm
  | some n =>
    rw [p.visit_eq v hn]
    funext s
    simp only [bind, EStateM.bind]
    cases v.enter n s with
    | error e s' => rfl
    | ok b s' =>
      cases b
      · rfl
      · simp [walkFrom_eq]

end Plan

end Dataflow
