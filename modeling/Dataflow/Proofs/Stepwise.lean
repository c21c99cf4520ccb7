import Dataflow.Proofs.Acceptance
import Dataflow.Proofs.Frames

/-! # Walks step by step

    A walk is written down once more as a machine runs it: on its stack are
    positions and slot numbers, a look-up may miss, and its steps are counted.
    For every visitor this is the walk by recursion: every node on the stack is
    there, and the steps are no more than the plan alone gives, though a visitor
    may enter a node each time that the walk reaches it.

    What a visitor is asked is noted down, callback by callback, together with
    the errors. So it shows that a callback that fails is the last one.

    Main statements:
    - `strictWalkFrom_eq`: a walk from a stack takes no more steps than are left
    - `notes_walk`: the callbacks of a walk are made up to the first error
    - `walk_ends`: a walk ends, and as the walk by recursion does
-/

namespace Dataflow

namespace Plan

-- The empty sum is the zero of the core library, whatever else is imported.
attribute [local instance (high)] Zero.ofOfNat0

variable {σ ε : Type}

/-! ## Section 1: The walk with look-ups that may miss -/

namespace Parts

/-- The node that a channel starts at, with its position; none if the channel leads nowhere. -/
def child? (q : Parts) (c : ChannelId) : Option (Nat × Node) := do
  let ch ← q.channels[c.index]?
  let node ← q.nodes[ch.source.index]?
  return (ch.source.index, node)

/-- Goes on with the visits on a stack for at most `fuel` steps. There is no answer if these do not
suffice, or if a node on the stack is not there. -/
def strictWalkFrom (q : Parts) (v : Visitor σ ε) :
    (fuel : Nat) → List Cursor → σ → Option (EStateM.Result ε σ Unit)
  | _, [], s => some (.ok () s)
  | 0, _ :: _, _ => none
  | fuel + 1, ⟨i, slot⟩ :: stack, s => do
    let node ← q.nodes[i]?
    match node.inputs[slot]? with
    | none =>
      match v.leave node s with
      | .error e s => return .error e s
      | .ok _ s => q.strictWalkFrom v fuel stack s
    | some c =>
      match q.child? c with
      | none => q.strictWalkFrom v fuel (⟨i, slot + 1⟩ :: stack) s
      | some (child, producer) =>
        match v.enter producer s with
        | .error e s => return .error e s
        | .ok false s => q.strictWalkFrom v fuel (⟨i, slot + 1⟩ :: stack) s
        | .ok true s => q.strictWalkFrom v fuel (⟨child, 0⟩ :: ⟨i, slot + 1⟩ :: stack) s

/-- Walks from a list of nodes one after another, for at most `fuel` steps each. -/
def strictWalk (q : Parts) (v : Visitor σ ε) (fuel : Nat) :
    List NodeId → σ → Option (EStateM.Result ε σ Unit)
  | [], s => some (.ok () s)
  | root :: rest, s =>
    match q.nodes[root.index]? with
    | none => q.strictWalk v fuel rest s
    | some node =>
      match v.enter node s with
      | .error e s => some (.error e s)
      | .ok false s => q.strictWalk v fuel rest s
      | .ok true s => do
        match ← q.strictWalkFrom v fuel [⟨root.index, 0⟩] s with
        | .error e s => return .error e s
        | .ok _ s => q.strictWalk v fuel rest s

end Parts

/-! ## Section 2: The walk takes no more steps than are left -/

variable {p : Plan} {v : Visitor σ ε}

/-- A cursor stands where a visit does. -/
structure Visit.At (p : Plan) (cursor : Parts.Cursor) (visit : Visit) : Prop where
  /-- It is for the visited node. -/
  node : p.nodes[cursor.node]? = some visit.node
  /-- The inputs from the cursor's slot on are still to be walked. -/
  pending : visit.pending = visit.node.inputs.drop cursor.slot

theorem Visit.At.start {i : Nat} {n : Node} (hn : p.nodes[i]? = some n) :
    Visit.At p ⟨i, 0⟩ ⟨n, n.inputs⟩ where
  node := hn
  pending := rfl

/-- What is in the slot of a cursor is the first input that is pending. -/
theorem Visit.At.slot {cursor : Parts.Cursor} {visit : Visit} (h : Visit.At p cursor visit) :
    visit.node.inputs[cursor.slot]? = visit.pending.head? := by
  rw [h.pending, List.head?_drop]

theorem Visit.At.next {cursor : Parts.Cursor} {n : Node} {c : ChannelId} {rest : List ChannelId}
    (h : Visit.At p cursor ⟨n, c :: rest⟩) :
    Visit.At p ⟨cursor.node, cursor.slot + 1⟩ ⟨n, rest⟩ where
  node := h.node
  pending := by
    have htail := congrArg List.tail h.pending
    rwa [List.tail_drop] at htail

theorem child?_eq_none {c : ChannelId} (h : p.producer? c = none) : p.child? c = none := by
  unfold producer? Parts.channel? Parts.node? at h
  unfold Parts.child?
  cases hch : p.channels[c.index]? with
  | none => rfl
  | some ch =>
    rw [hch, Option.bind_some] at h
    simp [h]

theorem child?_eq_some {c : ChannelId} {n : Node} (h : p.producer? c = some n) :
    ∃ i, p.child? c = some (i, n) ∧ p.nodes[i]? = some n := by
  obtain ⟨ch, hch, hn⟩ := Option.bind_eq_some_iff.mp h
  rw [Parts.channel?] at hch
  rw [Parts.node?] at hn
  exact ⟨ch.source.index, by simp [Parts.child?, hch, hn], hn⟩

/-- The steps of a walk in which every node that is reached is entered. -/
noncomputable def walkSteps (p : Plan) : Nat := (p.sinks.map p.work).sum

/-- A visit on top takes one step at least. -/
theorem exists_visitFuel {visit : Visit} {stack : List Visit} {fuel : Nat}
    (h : ((visit :: stack).map p.visitWork).sum ≤ fuel) :
    ∃ left, fuel = left + 1 ∧
      (visit.pending.map p.channelWork).sum + (stack.map p.visitWork).sum ≤ left := by
  rw [List.map_cons, List.sum_cons, visitWork] at h
  exact ⟨fuel - 1, by omega, by omega⟩

/-- The steps that an input took were left for it. -/
theorem next_le {n : Node} {c : ChannelId} {rest : List ChannelId} {stack : List Visit} {left : Nat}
    (h : ((c :: rest).map p.channelWork).sum + (stack.map p.visitWork).sum ≤ left) :
    ((⟨n, rest⟩ :: stack).map p.visitWork).sum ≤ left := by
  have hpos := p.channelWork_pos c
  simp only [List.map_cons, List.sum_cons, visitWork] at h ⊢
  omega

/-- The steps below a producer were left for the input that leads to it. -/
theorem enter_le {n producer : Node} {c : ChannelId} {rest : List ChannelId} {stack : List Visit}
    {left : Nat} (hproducer : p.producer? c = some producer)
    (h : ((c :: rest).map p.channelWork).sum + (stack.map p.visitWork).sum ≤ left) :
    ((⟨producer, producer.inputs⟩ :: ⟨n, rest⟩ :: stack).map p.visitWork).sum ≤ left := by
  have hwork := p.channelWork_eq hproducer
  simp only [List.map_cons, List.sum_cons, visitWork] at h ⊢
  omega

/-- With nothing pending on top the node is left. -/
theorem Visit.At.leave {cursor : Parts.Cursor} {n : Node} (h : Visit.At p cursor ⟨n, []⟩)
    (fuel : Nat) (cursors : List Parts.Cursor) (s : σ) :
    p.strictWalkFrom v (fuel + 1) (cursor :: cursors) s =
      match v.leave n s with
      | .error e s => some (.error e s)
      | .ok _ s => p.strictWalkFrom v fuel cursors s := by
  simp only [Parts.strictWalkFrom, h.node, h.slot, List.head?_nil, Option.bind_eq_bind,
    Option.bind_some]
  rfl

/-- With an input pending on top its producer is looked up. -/
theorem Visit.At.follow {cursor : Parts.Cursor} {n : Node} {c : ChannelId} {rest : List ChannelId}
    (h : Visit.At p cursor ⟨n, c :: rest⟩) (fuel : Nat) (cursors : List Parts.Cursor) (s : σ) :
    p.strictWalkFrom v (fuel + 1) (cursor :: cursors) s =
      match p.child? c with
      | none => p.strictWalkFrom v fuel (⟨cursor.node, cursor.slot + 1⟩ :: cursors) s
      | some (child, producer) =>
        match v.enter producer s with
        | .error e s => some (.error e s)
        | .ok false s => p.strictWalkFrom v fuel (⟨cursor.node, cursor.slot + 1⟩ :: cursors) s
        | .ok true s =>
          p.strictWalkFrom v fuel (⟨child, 0⟩ :: ⟨cursor.node, cursor.slot + 1⟩ :: cursors) s := by
  simp only [Parts.strictWalkFrom, h.node, h.slot, List.head?_cons, Option.bind_eq_bind,
    Option.bind_some]
  rfl

/-- A walk from a stack takes no more steps than are left, and every node on its stack is there. -/
theorem strictWalkFrom_eq {stack : List Visit} {cursors : List Parts.Cursor} {fuel : Nat} {s : σ}
    (hat : List.Forall₂ (Visit.At p) cursors stack) (hfuel : (stack.map p.visitWork).sum ≤ fuel) :
    p.strictWalkFrom v fuel cursors s = some (p.walkFrom v stack s) := by
  fun_induction walkFrom p v stack s generalizing cursors fuel with
  | case1 s =>
    cases hat
    cases fuel <;> rfl
  | case2 s n stack e s' hleave =>
    obtain _ | ⟨hcursor, hrest⟩ := hat
    obtain ⟨fuel, rfl, -⟩ := exists_visitFuel hfuel
    rw [hcursor.leave, hleave]
  | case3 s n stack u s' hleave ih =>
    obtain _ | ⟨hcursor, hrest⟩ := hat
    obtain ⟨fuel, rfl, hleft⟩ := exists_visitFuel hfuel
    rw [hcursor.leave, hleave]
    exact ih hrest (by simpa using hleft)
  | case4 s n c rest stack hproducer ih =>
    obtain _ | ⟨hcursor, hrest⟩ := hat
    obtain ⟨fuel, rfl, hleft⟩ := exists_visitFuel hfuel
    rw [hcursor.follow, child?_eq_none hproducer]
    exact ih (.cons hcursor.next hrest) (next_le hleft)
  | case5 s n c rest stack producer hproducer e s' henter =>
    obtain _ | ⟨hcursor, hrest⟩ := hat
    obtain ⟨fuel, rfl, -⟩ := exists_visitFuel hfuel
    obtain ⟨i, hchild, -⟩ := child?_eq_some hproducer
    rw [hcursor.follow, hchild]
    simp only [henter]
  | case6 s n c rest stack producer hproducer s' henter ih =>
    obtain _ | ⟨hcursor, hrest⟩ := hat
    obtain ⟨fuel, rfl, hleft⟩ := exists_visitFuel hfuel
    obtain ⟨i, hchild, -⟩ := child?_eq_some hproducer
    rw [hcursor.follow, hchild]
    simp only [henter]
    exact ih (.cons hcursor.next hrest) (next_le hleft)
  | case7 s n c rest stack producer hproducer s' henter ih =>
    obtain _ | ⟨hcursor, hrest⟩ := hat
    obtain ⟨fuel, rfl, hleft⟩ := exists_visitFuel hfuel
    obtain ⟨i, hchild, hi⟩ := child?_eq_some hproducer
    rw [hcursor.follow, hchild]
    simp only [henter]
    exact ih (.cons (.start hi) (.cons hcursor.next hrest)) (enter_le hproducer hleft)

/-- A walk from several nodes takes no more steps from each than are below it. -/
theorem strictWalk_eq {roots : List NodeId} {fuel : Nat} (hfuel : ∀ id ∈ roots, p.work id ≤ fuel)
    (s : σ) : p.strictWalk v fuel roots s = some (roots.forM (p.walkNode v) s) := by
  induction roots generalizing s with
  | nil => rfl
  | cons root rest ih =>
    have hrest := ih fun id hid => hfuel id (List.mem_cons_of_mem _ hid)
    rw [Parts.strictWalk]
    show _ = some (EStateM.bind (p.walkNode v root) (fun _ => rest.forM (p.walkNode v)) s)
    unfold EStateM.bind walkNode Parts.node?
    cases hn : p.nodes[root.index]? with
    | none => exact hrest s
    | some n =>
      simp only
      cases henter : v.enter n s with
      | error e s' => rfl
      | ok entered s' =>
        cases entered with
        | false => exact hrest s'
        | true =>
          have hwork : ([⟨n, n.inputs⟩].map p.visitWork).sum ≤ fuel := by
            rw [List.map_singleton, List.sum_singleton, visitWork, ← p.work_eq hn]
            exact hfuel root (List.mem_cons_self ..)
          have hrun : p.strictWalkFrom v fuel [⟨root.index, 0⟩] s' = _ :=
            strictWalkFrom_eq (.cons (.start hn) .nil) hwork
          simp only [hrun, Option.bind_eq_bind, Option.bind_some]
          cases p.walkFrom v [⟨n, n.inputs⟩] s' with
          | error e s'' => rfl
          | ok u s'' => exact hrest s''

theorem work_le_walkSteps {id : NodeId} (h : id ∈ p.sinks) : p.work id ≤ p.walkSteps :=
  List.le_sum_of_mem (List.mem_map_of_mem h)

/-! ## Section 3: The callbacks that are made -/

/-- A callback that a visitor has been given, and the error that it failed with, if it did. -/
structure Note (ε : Type) where
  /-- The callback. -/
  callback : Callback
  /-- The error. -/
  error : Option ε

/-- A result whose state has notes beside it. -/
def withNotes {α : Type} (notes : List (Note ε)) :
    EStateM.Result ε σ α → EStateM.Result ε (σ × List (Note ε)) α
  | .ok a s => .ok a (s, notes)
  | .error e s => .error e (s, notes)

/-- A callback that is noted down when it ends. -/
def noted {α : Type} (cb : Callback) (m : EStateM ε σ α) : EStateM ε (σ × List (Note ε)) α :=
  fun (s, notes) =>
    match m s with
    | .ok a s => .ok a (s, notes ++ [⟨cb, none⟩])
    | .error e s => .error e (s, notes ++ [⟨cb, some e⟩])

/-- The visitor that notes down its callbacks. -/
def Visitor.noting (v : Visitor σ ε) : Visitor (σ × List (Note ε)) ε where
  enter n := noted (.enter n) (v.enter n)
  leave n := noted (.leave n) (v.leave n)

/-- If a result is an error, the last callback failed with it; no other one failed. -/
def Concludes {α : Type} (notes : List (Note ε)) : EStateM.Result ε σ α → Prop
  | .ok _ _ => ∀ note ∈ notes, note.error = none
  | .error e _ => ∃ before cb, notes = before ++ [⟨cb, some e⟩] ∧ ∀ note ∈ before, note.error = none

/-- A computation does what another one does and notes down the callbacks. -/
def Notes {α : Type} (m : EStateM ε σ α) (m' : EStateM ε (σ × List (Note ε)) α) : Prop :=
  ∀ s old, ∃ new, m' (s, old) = withNotes (old ++ new) (m s) ∧ Concludes new (m s)

namespace Notes

variable {α β : Type}

theorem pure (a : α) : Notes (Pure.pure a : EStateM ε σ α) (Pure.pure a) := by
  intro s old
  exact ⟨[], by rw [List.append_nil]; rfl, fun note h => absurd h (List.not_mem_nil)⟩

theorem noted (cb : Callback) (m : EStateM ε σ α) : Notes m (noted cb m) := by
  intro s old
  cases hm : m s with
  | ok a s' =>
    refine ⟨[⟨cb, none⟩], by simp [Plan.noted, withNotes, hm], ?_⟩
    intro note hnote
    rw [List.mem_singleton.mp hnote]
  | error e s' =>
    refine ⟨[⟨cb, some e⟩], by simp [Plan.noted, withNotes, hm], [], cb, rfl, ?_⟩
    intro note hnote
    exact absurd hnote List.not_mem_nil

/-- After a first computation that fails nothing is noted any more. -/
theorem bind {m : EStateM ε σ α} {m' : EStateM ε (σ × List (Note ε)) α} {f : α → EStateM ε σ β}
    {f' : α → EStateM ε (σ × List (Note ε)) β} (h : Notes m m') (hf : ∀ a, Notes (f a) (f' a)) :
    Notes (m >>= f) (m' >>= f') := by
  intro s old
  obtain ⟨new, hm', hnew⟩ := h s old
  simp only [Bind.bind, EStateM.bind, hm']
  cases hm : m s with
  | error e s' =>
    rw [hm] at hnew
    exact ⟨new, rfl, hnew⟩
  | ok a s' =>
    rw [hm] at hnew
    obtain ⟨more, hf', hmore⟩ := hf a s' (old ++ new)
    refine ⟨new ++ more, by rw [← List.append_assoc]; exact hf', ?_⟩
    show Concludes (new ++ more) (f a s')
    cases hfa : f a s' with
    | ok b s'' =>
      rw [hfa] at hmore
      intro note hnote
      exact (List.mem_append.mp hnote).elim (hnew note) (hmore note)
    | error e s'' =>
      rw [hfa] at hmore
      obtain ⟨before, cb, rfl, hbefore⟩ := hmore
      refine ⟨new ++ before, cb, (List.append_assoc ..).symm, ?_⟩
      intro note hnote
      exact (List.mem_append.mp hnote).elim (hnew note) (hbefore note)

theorem sequential : @Sequential σ (σ × List (Note ε)) ε ε Notes := ⟨Notes.pure, Notes.bind⟩

end Notes

/-- The callbacks of a walk are made up to the first error. -/
theorem notes_walk (p : Plan) (v : Visitor σ ε) : Notes (p.walk v) (p.walk v.noting) :=
  Notes.sequential.walk p v v.noting (fun n => .noted (.enter n) (v.enter n))
    fun n => .noted (.leave n) (v.leave n)

/-! ## Section 4: Walks end -/

/-- A walk ends, whatever its visitor does, after at most as many steps from each sink as the plan
gives, and every node on its stack is there. State and result are those of the walk by recursion. If a
callback fails, it is the last one, and the walk fails with its error. -/
theorem walk_ends (p : Plan) (v : Visitor σ ε) (s : σ) :
    (∀ spare, p.strictWalk v (p.walkSteps + spare) p.sinks s = some (p.depthFirst v s)) ∧
      p.walk v s = p.depthFirst v s ∧
      ∃ notes, p.walk v.noting (s, []) = withNotes notes (p.walk v s) ∧
        Concludes notes (p.walk v s) := by
  have hwalk := congrFun (p.walk_eq_depthFirst v) s
  refine ⟨fun spare => ?_, hwalk, ?_⟩
  · rw [← hwalk]
    apply strictWalk_eq
    intro id hid
    exact Nat.le_trans (work_le_walkSteps hid) (Nat.le_add_right ..)
  · obtain ⟨notes, hnoting, hconcludes⟩ := notes_walk p v s []
    exact ⟨notes, hnoting, hconcludes⟩

end Plan

end Dataflow
