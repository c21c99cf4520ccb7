import Dataflow.Plan.Basic

/-! # Branches of an input

    A union is no operator: what reads it reads the inputs of the union, and so
    on through unions of unions. The branches of a channel are the channels
    that remain, in slot order.

    They are defined twice: with a stack of its own, which is how they are
    computed, and by recursion on the plan, which is what they are.
-/

namespace Dataflow

namespace Plan

-- The empty sum is the zero of the core library, whatever else is imported.
attribute [local instance (high)] Zero.ofOfNat0

/-! ## Section 1: With a stack -/

theorem sum_work_of_mapM (p : Plan) {inputs : List ChannelId} {channels : List Channel}
    (h : inputs.mapM p.channel = .ok channels) :
    (channels.map fun ch => 1 + p.work ch.source).sum = (inputs.map p.channelWork).sum := by
  induction inputs generalizing channels with
  | nil =>
    simp only [List.mapM_nil, pure, Except.pure, Except.ok.injEq] at h
    subst h
    rfl
  | cons c rest ih =>
    simp only [List.mapM_cons, bind, Except.bind, pure, Except.pure] at h
    split at h
    · simp at h
    · rename_i ch hch
      split at h
      · simp at h
      · rename_i channels' hrest
        injection h with h
        subst h
        have hch : p.channel? c = some ch := by
          unfold Parts.channel at hch
          split at hch
          · simp_all
          · simp at hch
        simp [ih hrest, channelWork, hch]

/-- The branches found so far, last first, and those of the channels on a stack. -/
def branchesFrom (p : Plan) (found : List Channel) : List Channel → Except Fault (List Channel)
  | [] => .ok found.reverse
  | ch :: stack =>
    match _ : p.node? ch.source with
    | none => .error (.unknownNode ch.source)
    | some n =>
      if n.isUnion then
        match _ : n.inputs.mapM p.channel with
        | .error fault => .error fault
        | .ok channels => p.branchesFrom found (channels ++ stack)
      else p.branchesFrom (ch :: found) stack
termination_by stack => (stack.map fun ch => 1 + p.work ch.source).sum
decreasing_by
  · have hn := p.work_eq (by assumption)
    have hc := p.sum_work_of_mapM (by assumption)
    simp only [List.map_append, List.sum_append, hc, List.map_cons, List.sum_cons, hn]
    omega
  · simp only [List.map_cons, List.sum_cons]
    omega

/-- The channels behind one input: the channel itself, or the branches of every input of the union
that it starts at. -/
def branches (p : Plan) (ch : Channel) : Except Fault (List Channel) := p.branchesFrom [] [ch]

/-! ## Section 2: By recursion -/

/-- The branches of a channel in slot order. -/
def flat (p : Plan) (ch : Channel) : List Channel :=
  match hn : p.node? ch.source with
  | none => [ch]
  | some n =>
    if n.isUnion then
      n.inputs.attach.flatMap fun ⟨c, hc⟩ =>
        match hd : p.channel? c with
        | none => []
        | some d =>
          have := p.rank_lt_of_input hn hc hd
          p.flat d
    else [ch]
termination_by p.rank ch.source

end Plan

end Dataflow
