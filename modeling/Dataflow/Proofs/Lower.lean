import Dataflow.Compiler
import Dataflow.Proofs.Progress
import Dataflow.Proofs.Remember

/-! # Lowering along the schedule

    The visitor that makes vertices and wires remembers: what has become of a
    node says whether it has been entered. Only a union becomes nothing, and it
    is entered each time.

    Main statement:
    - `lower_runs`: a compilation does all callbacks of the schedule, or the
      first fault of one shows
-/

namespace Dataflow

namespace Plan

open Lowering

variable {p : Plan} {done : List Callback} {policy : SpillPolicy} {job : JobId} {s : State}

/-! ## Section 1: What the visitor remembers -/

theorem outcome?_of_entered (hdone : done <+: p.schedule) (hs : p.Reaches policy job done s)
    {n : Node} (hn : .enter n ∈ done) : (s.outcome? n.id).isSome = true := by
  have hmade : n ∈ madeNodes (p.journal done) := (mem_madeNodes_journal hdone).mpr hn
  simp [Shows.outcome?_eq hs hmade]

theorem outcome?_of_not_entered (hdone : done <+: p.schedule) (hs : p.Reaches policy job done s)
    {n : Node} (hn : p.node? n.id = some n) (hnew : .enter n ∉ done) : s.outcome? n.id = none := by
  have hmade : n ∉ madeNodes (p.journal done) := by
    intro h
    exact hnew ((mem_madeNodes_journal hdone).mp h)
  exact Shows.outcome?_eq_none hs hn hmade

/-- The visitor passes over a node that has become something. -/
theorem visitor_enter_old {n : Node} (hout : (s.outcome? n.id).isSome = true) :
    (visitor policy p).enter n s = .ok false s := by
  simp [visitor, bind, EStateM.bind, get_apply, hout, pure,
    EStateM.pure]

/-- The visitor makes a node something that has become nothing yet. -/
theorem visitor_enter_new {n : Node} (hout : s.outcome? n.id = none) :
    (visitor policy p).enter n s =
      (forNode n .materialize (materialize policy p n) >>= fun _ => pure true) s := by
  simp [visitor, bind, EStateM.bind, get_apply, hout]

/-- The visitor that makes vertices and wires enters every node but a union once, and the state
shows what the callbacks have built. -/
theorem remembers_visitor :
    p.Remembers (visitor policy p) (act policy p) p.callbackFault? (p.Reaches policy job) where
  union_enter := fun {done s n} hdone hs hn hu => by
    have hkind : n.kind = .union := by
      revert hu
      unfold Node.isUnion Kind.isUnion
      split <;> simp_all
    -- A union has no callbacks, so nothing has become of it.
    have hnew : .enter n ∉ done := by
      intro hmem
      have hu' : n.isUnion = false := (node_of_done hdone hmem).2
      simp [hu] at hu'
    rw [visitor_enter_new (outcome?_of_not_entered hdone hs hn hnew)]
    simp only [materialize, hkind]
    rfl
  union_leave := fun {n} hu => by
    simp only [visitor, wire, hu, true_or, if_true]
    rfl
  enter_old := fun hdone hs hn => visitor_enter_old (outcome?_of_entered hdone hs hn)
  enter_new := fun {done s n} hnext hs => by
    obtain ⟨rest, hrest⟩ := hnext
    have hsplit : p.schedule = done ++ .enter n :: rest := by simp [← hrest]
    have hnode := p.mem_schedule.mp (show .enter n ∈ p.schedule by simp [hsplit])
    have hdone : done <+: p.schedule := ⟨.enter n :: rest, hsplit.symm⟩
    exact visitor_enter_new
      (outcome?_of_not_entered hdone hs hnode.1 (p.ready_of_schedule hsplit).1)
  leave := fun _ => rfl
  act_runs := act_runs

/-! ## Section 2: The walk -/

theorem reaches_start : p.Reaches policy job [] (.start job p) where
  begun := ⟨p.entered, rfl⟩
  size := by simp [State.start]
  outcome id := by
    have hnone : (State.start job p).outcome? id = none := by
      simp only [State.outcome?, State.start, Array.getElem?_replicate]
      split <;> rfl
    exact hnone
  vertex id := by simp [State.start, JobGraph.vertex?, layoutAfter, journal, madeNodes]
  chain id := by simp [State.start, State.chain?, layoutAfter, journal, madeNodes]
  resolved := rfl
  anchor := rfl
  job := rfl
  name := rfl
  config := rfl

/-- A compilation does all callbacks of the schedule, or the first fault of one shows. -/
theorem lower_runs (c : Compiler) (job : JobId) (p : Plan) :
    Runs (p.walk (visitor c.policy p)) (.start job p) (p.schedule.findSome? p.callbackFault?)
      (p.Reaches c.policy job p.schedule) :=
  walk_runs remembers_visitor reaches_start

end Plan

end Dataflow
