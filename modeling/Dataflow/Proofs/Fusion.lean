import Dataflow.Lowering.Fusion
import Dataflow.Proofs.Schedule

/-! # Fused nodes and their hosts

    A node is fused with the producer of its first input when nothing keeps it
    from that. The producer may be fused itself; the host of a node is found by
    following producers until one has a vertex of its own.

    Main statements:
    - `exists_fused`: what holds of a node that becomes a chain
    - `exists_host`: the host of a node is not fused, and the walk from the node
      enters it
-/

namespace Dataflow

namespace Plan

open Lowering

variable (p : Plan)

/-! ## Section 1: Fused nodes -/

/-- Whether a node becomes a chain when it is entered. -/
def fuses (n : Node) : Bool :=
  match n.kind with
  | .singleInput driver _ =>
    match blocker? p n driver with
    | .ok none => true
    | _ => false
  | _ => false

/-- A union is not fused. -/
theorem fuses_of_union {n : Node} (hu : n.isUnion = true) : p.fuses n = false := by
  revert hu
  unfold fuses Node.isUnion Kind.isUnion
  cases n.kind <;> simp

/-- A node is fused over its first input with the producer of it. -/
structure Fused (n : Node) (ch : Channel) (producer : Node) : Prop where
  /-- Records can be pushed to its driver. -/
  driver : ∃ driver comparator text, n.kind = .singleInput driver comparator ∧
    driver.chainDriver? = some text
  /-- The channel is its first input. -/
  input : ∃ c rest, n.inputs = c :: rest ∧ p.channel? c = some ch
  /-- The producer is the source of the channel. -/
  source : p.node? ch.source = some producer
  /-- The producer is no union. -/
  not_union : producer.isUnion = false
  /-- Records are forwarded. -/
  ship : ch.ship = .forward
  /-- The input is not prepared. -/
  localStrategy : ch.localStrategy = .nothing
  /-- The producer has one consumer. -/
  outgoing : producer.outgoing.length = 1
  /-- The numbers of subtasks agree. -/
  parallelism : n.parallelism = producer.parallelism
  /-- The numbers of subtasks on one instance agree. -/
  subtasks : n.subtasksPerInstance = producer.subtasksPerInstance

theorem between?_eq_none_iff (producer : Node) (ch : Channel) (n : Node) :
    Blocker.between? producer ch n = none ↔ producer.isUnion = false ∧ ch.ship = .forward ∧
      ch.localStrategy = .nothing ∧ producer.outgoing.length = 1 ∧
      n.parallelism = producer.parallelism ∧
      n.subtasksPerInstance = producer.subtasksPerInstance := by
  unfold Blocker.between?
  repeat' split
  all_goals simp_all

theorem channel_eq_ok {c : ChannelId} {ch : Channel} :
    p.channel c = .ok ch ↔ p.channel? c = some ch := by
  unfold Parts.channel
  split <;> rename_i h <;> simp [h]

theorem node_eq_ok {id : NodeId} {n : Node} : p.node id = .ok n ↔ p.node? id = some n := by
  unfold Parts.node
  split <;> rename_i h <;> simp [h]

theorem lookedUp_ok {α : Type} (a : α) : lookedUp (.ok a) = .ok a := rfl

/-- What keeps an operator with an input from being fused is found without a failure. -/
theorem blocker?_cons {n : Node} {driver : DriverStrategy} {c : ChannelId} {rest : List ChannelId}
    {ch : Channel} {producer : Node} (hinputs : n.inputs = c :: rest) (hch : p.channel? c = some ch)
    (hsource : p.node? ch.source = some producer) :
    blocker? p n driver = .ok (if driver.chainDriver? = none then some (.noPushDriver driver)
      else Blocker.between? producer ch n) := by
  unfold blocker?
  split
  · rfl
  · simp only [hinputs, p.channel_eq_ok.mpr hch, p.node_eq_ok.mpr hsource, lookedUp_ok, bind,
      Except.bind, pure, Except.pure]

theorem blocker?_nil {n : Node} {driver : DriverStrategy} (hinputs : n.inputs = []) :
    blocker? p n driver = if driver.chainDriver? = none then .ok (some (.noPushDriver driver))
      else .error (.violation (.noInput n)) := by
  unfold blocker?
  split
  · rfl
  · simp only [hinputs]

theorem Fused.fuses {p : Plan} {n : Node} {ch : Channel} {producer : Node}
    (h : p.Fused n ch producer) : p.fuses n = true := by
  obtain ⟨driver, comparator, text, hkind, htext⟩ := h.driver
  obtain ⟨c, rest, hinputs, hch⟩ := h.input
  have hbetween := (between?_eq_none_iff producer ch n).mpr
    ⟨h.not_union, h.ship, h.localStrategy, h.outgoing, h.parallelism, h.subtasks⟩
  simp only [Plan.fuses, hkind, p.blocker?_cons hinputs hch h.source, htext, hbetween]
  rfl

/-- A node that becomes a chain is fused over its first input. -/
theorem exists_fused {id : NodeId} {n : Node} (hn : p.node? id = some n) (h : p.fuses n = true) :
    ∃ ch producer, p.Fused n ch producer := by
  unfold fuses at h
  split at h
  · rename_i driver comparator hkind
    -- Without an input there is no producer to be fused with, whatever the driver is.
    cases hinputs : n.inputs with
    | nil =>
      rw [p.blocker?_nil hinputs] at h
      split at h
      · rename_i hb
        split at hb <;> simp at hb
      · simp at h
    | cons c rest =>
      obtain ⟨ch, hch, _⟩ := p.exists_channel hn (c := c) (by simp [hinputs])
      obtain ⟨producer, hsource⟩ := p.exists_source hch
      rw [p.blocker?_cons hinputs hch hsource] at h
      split at h
      · rename_i hb
        split at hb
        · simp at hb
        · rename_i hdriver
          obtain ⟨text, htext⟩ := Option.ne_none_iff_exists'.mp hdriver
          obtain ⟨h₁, h₂, h₃, h₄, h₅, h₆⟩ :=
            (between?_eq_none_iff producer ch n).mp (by simpa using hb)
          exact ⟨ch, producer, ⟨driver, comparator, text, hkind, htext⟩, ⟨c, rest, hinputs, hch⟩,
            hsource, h₁, h₂, h₃, h₄, h₅, h₆⟩
      · simp at h
  · simp at h

/-- The producer of a fused node ranks below it. -/
theorem Fused.rank_lt {p : Plan} {id : NodeId} {n : Node} {ch : Channel} {producer : Node}
    (h : p.Fused n ch producer) (hn : p.node? id = some n) : p.rank ch.source < p.rank id := by
  obtain ⟨c, rest, hinputs, hch⟩ := h.input
  exact p.rank_lt_of_input hn (by simp [hinputs]) hch

/-- The channel of a fused node ends at it. -/
theorem Fused.target_eq {p : Plan} {id : NodeId} {n : Node} {ch : Channel} {producer : Node}
    (h : p.Fused n ch producer) (hn : p.node? id = some n) : ch.target = id := by
  obtain ⟨c, rest, hinputs, hch⟩ := h.input
  obtain ⟨ch', hch', htarget⟩ := p.exists_channel hn (show c ∈ n.inputs by simp [hinputs])
  rw [hch] at hch'
  rw [Option.some.inj hch', htarget]

/-! ## Section 2: Hosts -/

/-- The node whose vertex runs a node: the node itself, or the host of its producer if it is fused. -/
def host (p : Plan) (id : NodeId) : NodeId :=
  match hn : p.node? id with
  | none => id
  | some n =>
    if p.fuses n then
      match hc : n.inputs.head? with
      | none => id
      | some c =>
        match hch : p.channel? c with
        | none => id
        | some ch =>
          have := p.rank_lt_of_input hn (List.mem_of_head? hc) hch
          p.host ch.source
    else id
termination_by p.rank id

theorem host_of_none {id : NodeId} (hn : p.node? id = none) : p.host id = id := by
  rw [host]
  split
  · rfl
  · simp_all

theorem host_of_not_fuses {id : NodeId} {n : Node} (hn : p.node? id = some n)
    (h : p.fuses n = false) : p.host id = id := by
  rw [host]
  split
  · rfl
  · rename_i n' hn'
    obtain rfl : n' = n := by simpa [hn] using hn'.symm
    rw [if_neg (by simp [h])]

theorem Fused.host_eq {p : Plan} {id : NodeId} {n : Node} {ch : Channel} {producer : Node}
    (h : p.Fused n ch producer) (hn : p.node? id = some n) : p.host id = p.host ch.source := by
  obtain ⟨c, rest, hinputs, hch⟩ := h.input
  rw [host]
  split
  · simp_all
  · rename_i n' hn'
    obtain rfl : n' = n := by simpa [hn] using hn'.symm
    rw [if_pos h.fuses]
    split
    · rename_i hc
      simp [hinputs] at hc
    · rename_i c' hc
      obtain rfl : c = c' := by simpa [hinputs] using hc
      split <;> rename_i hch' <;> simp_all

/-- Facts about hosts follow if they hold of the nodes that are not fused, and if they pass from a
producer to the node that is fused with it. -/
theorem host_induction {motive : NodeId → Prop}
    (missing : ∀ id, p.node? id = none → motive id)
    (own : ∀ id n, p.node? id = some n → p.fuses n = false → motive id)
    (fused : ∀ id n ch producer, p.node? id = some n → p.Fused n ch producer → motive ch.source →
      motive id)
    (id : NodeId) : motive id := by
  induction id using p.producers_induction with
  | step id ih =>
    cases hn : p.node? id with
    | none => exact missing id hn
    | some n =>
      cases hf : p.fuses n with
      | false => exact own id n hn hf
      | true =>
        obtain ⟨ch, producer, h⟩ := p.exists_fused hn hf
        obtain ⟨c, rest, hinputs, hch⟩ := h.input
        exact fused id n ch producer hn h (ih n c ch hn (by simp [hinputs]) hch)

/-- The host of a node that is no union is a node that is not fused, and a walk enters it. -/
theorem exists_host {id : NodeId} {n : Node} (hn : p.node? id = some n) (hu : n.isUnion = false) :
    ∃ m, m.id = p.host id ∧ p.fuses m = false ∧ .enter m ∈ p.callbacks id := by
  induction id using p.host_induction generalizing n with
  | missing id hnone => simp [hnone] at hn
  | own id m hm hf =>
    obtain rfl : m = n := Option.some.inj (hm.symm.trans hn)
    exact ⟨m, by rw [p.host_of_not_fuses hm hf, p.id_eq hm], hf, p.enter_mem_callbacks hm hu⟩
  | fused id m ch producer hm h ih =>
    -- The producer is below the first input.
    obtain ⟨c, rest, hinputs, hch⟩ := h.input
    obtain ⟨g, hg, hgf, hmem⟩ := ih h.source h.not_union
    refine ⟨g, by rw [h.host_eq hm, hg], hgf, p.callbacksOf_subset hm (c := c) (by simp [hinputs]) ?_⟩
    rw [p.callbacksOf_eq hch]
    exact hmem

theorem rank_host_le (id : NodeId) : p.rank (p.host id) ≤ p.rank id := by
  induction id using p.host_induction with
  | missing id hn => exact Nat.le_of_eq (congrArg p.rank (p.host_of_none hn))
  | own id n hn hf => exact Nat.le_of_eq (congrArg p.rank (p.host_of_not_fuses hn hf))
  | fused id n ch producer hn h ih =>
    rw [h.host_eq hn]
    exact Nat.le_trans ih (Nat.le_of_lt (h.rank_lt hn))

end Plan

end Dataflow
