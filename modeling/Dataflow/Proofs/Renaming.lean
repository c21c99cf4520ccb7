import Mathlib.Data.List.Basic
import Mathlib.Logic.Equiv.Basic
import Dataflow.Proofs.Admission
import Dataflow.Proofs.Faults

/-! # Plans under other handles

    A plan uses its handles to look things up and to compare them, and for
    nothing else. If the nodes and channels of a plan stand in another one under
    other handles, then all that the walk does with a node it does with the node
    of the new handle: the callbacks, the branches, what is fused and where, the
    entries and the faults are those of the first plan, renamed.

    Which handles there are does not matter, only that they are exchanged one
    for one. The sinks of the two plans need not agree.

    Main statements:
    - `Carries.exists_plan`: a plan under other handles is accepted
    - `Carries.callbacks`: the callbacks of a walk from a renamed node
    - `Carries.host`: the host of a renamed node
    - `Carries.entries`: the entries for a renamed callback
    - `Carries.enterFault?`, `Carries.leaveFault?`: the faults of a renamed node
-/

namespace Dataflow

open Lowering

namespace Plan

/-! ## Section 1: Renamings -/

/-- New handles for nodes and channels, one for one. -/
structure Renaming where
  /-- The new handle of a node. -/
  node : Equiv.Perm NodeId
  /-- The new handle of a channel. -/
  channel : Equiv.Perm ChannelId

/-- The renaming that changes nothing. -/
def Renaming.refl : Renaming := ⟨Equiv.refl _, Equiv.refl _⟩

/-- The renaming back to the old handles. -/
def Renaming.symm (ρ : Renaming) : Renaming := ⟨ρ.node.symm, ρ.channel.symm⟩

/-- The node under new handles. -/
def Node.rename (ρ : Renaming) (n : Node) : Node :=
  { n with
    id := ρ.node n.id
    inputs := n.inputs.map ρ.channel
    outgoing := n.outgoing.map ρ.channel }

/-- The channel under new handles. -/
def Channel.rename (ρ : Renaming) (ch : Channel) : Channel :=
  { ch with id := ρ.channel ch.id, source := ρ.node ch.source, target := ρ.node ch.target }

/-- The callback for the node under new handles. -/
def Callback.rename (ρ : Renaming) : Callback → Callback
  | enter n => enter (n.rename ρ)
  | leave n => leave (n.rename ρ)

/-- The entry under new handles. -/
def Entry.rename (ρ : Renaming) : Entry → Entry
  | made n => made (n.rename ρ)
  | wired n input branch => wired (n.rename ρ) input (branch.rename ρ)
  | described n input ch => described (n.rename ρ) input (ch.rename ρ)
  | hosted n ch => hosted (n.rename ρ) (ch.rename ρ)

end Plan

namespace Lowering

open Plan (Renaming)

/-- The violation with its nodes under new handles. -/
def Violation.rename (ρ : Renaming) : Violation → Violation
  | noInput node => noInput (node.rename ρ)
  | noDriver node => noDriver (node.rename ρ)
  | fusedInputs node => fusedInputs (node.rename ρ)
  | fusedLocalStrategy node strategy => fusedLocalStrategy (node.rename ρ) strategy
  | fusedShipStrategy node strategy => fusedShipStrategy (node.rename ρ) strategy
  | unhostedProducer node => unhostedProducer (node.rename ρ)
  | unloweredProducer producer node => unloweredProducer (ρ.node producer) (node.rename ρ)
  | resolvedTwice node => resolvedTwice (node.rename ρ)
  | unloweredSource producer => unloweredSource (ρ.node producer)
  | unhostedSource producer => unhostedSource (ρ.node producer)
  | noVertex node => noVertex (node.rename ρ)
  | noBranches input node => noBranches input (node.rename ρ)
  | unplaced node => unplaced (node.rename ρ)
  | unknownChain id => unknownChain id
  | unsetShipStrategy => unsetShipStrategy
  | appendedTwice id => appendedTwice id
  | unhostedChain name => unhostedChain name
  | unresolvedChain name => unresolvedChain name

/-- The error with the nodes of a violation under new handles. Faults of look-ups, which a
compilation does not meet, stay as they are. -/
def StepError.rename (ρ : Renaming) : StepError → StepError
  | violation v => violation (v.rename ρ)
  | unsupported limit => unsupported limit
  | serializerMismatch expected found => serializerMismatch expected found
  | fault f => fault f

end Lowering

namespace Plan

section
variable (ρ : Renaming)

@[simp] theorem rename_id (n : Node) : (n.rename ρ).id = ρ.node n.id := rfl

@[simp] theorem rename_kind (n : Node) : (n.rename ρ).kind = n.kind := rfl

@[simp] theorem rename_isUnion (n : Node) : (n.rename ρ).isUnion = n.isUnion := rfl

@[simp] theorem rename_inputs (n : Node) : (n.rename ρ).inputs = n.inputs.map ρ.channel := rfl

@[simp] theorem rename_source (ch : Channel) : (ch.rename ρ).source = ρ.node ch.source := rfl

/-- The new handle back gives the node itself. -/
theorem Node.rename_symm (n : Node) : (n.rename ρ).rename ρ.symm = n := by
  simp [Node.rename, Renaming.symm]

theorem Node.rename_injective : Function.Injective (Node.rename ρ) :=
  Function.LeftInverse.injective (g := Node.rename ρ.symm) (Node.rename_symm ρ)

theorem Callback.rename_injective : Function.Injective (Callback.rename ρ) := by
  intro cb cb' h
  cases cb <;> cases cb' <;> simp only [Callback.rename, Callback.enter.injEq, Callback.leave.injEq,
    reduceCtorEq] at h
  · rw [Node.rename_injective ρ h]
  · rw [Node.rename_injective ρ h]

end

@[simp] theorem refl_node (id : NodeId) : Renaming.refl.node id = id := rfl

@[simp] theorem refl_channel (id : ChannelId) : Renaming.refl.channel id = id := rfl

@[simp] theorem Node.rename_refl : Node.rename .refl = fun n => n := by
  funext n
  simp [Node.rename, Renaming.refl]

@[simp] theorem Channel.rename_refl : Channel.rename .refl = fun ch => ch := rfl

@[simp] theorem Callback.rename_refl : Callback.rename .refl = fun cb => cb := by
  funext cb
  cases cb <;> simp [Callback.rename]

@[simp] theorem Entry.rename_refl : Entry.rename .refl = fun e => e := by
  funext e
  cases e <;> simp [Entry.rename]

@[simp] theorem StepError.rename_refl : StepError.rename .refl = fun e => e := by
  funext e
  cases e with
  | violation v => cases v <;> simp [StepError.rename, Violation.rename]
  | unsupported | serializerMismatch | fault => rfl

/-! ## Section 2: Carried plans -/

/-- The nodes and channels of one arena are those of another one under new handles. -/
structure Carries (ρ : Renaming) (q q' : Parts) : Prop where
  /-- The new handle of a node names the node. -/
  node? : ∀ id, q'.node? (ρ.node id) = (q.node? id).map (Node.rename ρ)
  /-- The new handle of a channel names the channel. -/
  channel? : ∀ id, q'.channel? (ρ.channel id) = (q.channel? id).map (Channel.rename ρ)

variable {ρ : Renaming}

namespace Carries

section
variable {q q' : Parts} (h : Carries ρ q q')
include h

theorem node_some {id : NodeId} {n : Node} (hn : q.node? id = some n) :
    q'.node? (ρ.node id) = some (n.rename ρ) := by
  rw [h.node?, hn, Option.map_some]

theorem channel_some {id : ChannelId} {ch : Channel} (hch : q.channel? id = some ch) :
    q'.channel? (ρ.channel id) = some (ch.rename ρ) := by
  rw [h.channel?, hch, Option.map_some]

/-- Every node of the new arena is an old one. -/
theorem exists_node {id : NodeId} {n : Node} (hn : q'.node? id = some n) :
    ∃ m, q.node? (ρ.node.symm id) = some m ∧ n = m.rename ρ := by
  have hnode := h.node? (ρ.node.symm id)
  rw [Equiv.apply_symm_apply, hn] at hnode
  obtain ⟨m, hm, hmn⟩ := Option.map_eq_some_iff.mp hnode.symm
  exact ⟨m, hm, hmn.symm⟩

/-- Every channel of the new arena is an old one. -/
theorem exists_channel {id : ChannelId} {ch : Channel} (hch : q'.channel? id = some ch) :
    ∃ d, q.channel? (ρ.channel.symm id) = some d ∧ ch = d.rename ρ := by
  have hchannel := h.channel? (ρ.channel.symm id)
  rw [Equiv.apply_symm_apply, hch] at hchannel
  obtain ⟨d, hd, hdch⟩ := Option.map_eq_some_iff.mp hchannel.symm
  exact ⟨d, hd, hdch.symm⟩

theorem index_lt {id : NodeId} (hid : id.index < q.nodes.size) :
    (ρ.node id).index < q'.nodes.size := by
  have hnode := h.node_some (Array.getElem?_eq_getElem hid)
  exact (Array.getElem?_eq_some_iff.mp hnode).1

/-- Arenas under new handles stay consistent. -/
theorem consistent (hq : q.Consistent) (hsinks : ∀ s ∈ q'.sinks, ∃ t ∈ q.sinks, ρ.node t = s) :
    q'.Consistent := by
  -- An element of an array is what some handle names there.
  have node_mem : ∀ n ∈ q'.nodes, ∃ m ∈ q.nodes, n = m.rename ρ := fun n hn => by
    obtain ⟨i, hi⟩ := Array.mem_iff_getElem?.mp hn
    obtain ⟨m, hm, rfl⟩ := h.exists_node (show q'.node? ⟨i⟩ = some n from hi)
    exact ⟨m, Array.mem_of_getElem? hm, rfl⟩
  have channel_mem : ∀ ch ∈ q'.channels, ∃ d ∈ q.channels, ch = d.rename ρ := fun ch hch => by
    obtain ⟨i, hi⟩ := Array.mem_iff_getElem?.mp hch
    obtain ⟨d, hd, rfl⟩ := h.exists_channel (show q'.channel? ⟨i⟩ = some ch from hi)
    exact ⟨d, Array.mem_of_getElem? hd, rfl⟩
  refine {
    index_of_node := fun i n hn => ?_
    input_target := fun n hn c hc => ?_
    outgoing_source := fun n hn c hc => ?_
    index_of_channel := fun i ch hch => ?_
    source_lt := fun ch hch => ?_
    target_lt := fun ch hch => ?_
    sink_lt := fun s hs => ?_ }
  · obtain ⟨m, hm, rfl⟩ := h.exists_node (show q'.node? ⟨i⟩ = some n from hn)
    have hid : m.id = ρ.node.symm ⟨i⟩ := Consistent.id_eq hq hm
    simp [hid]
  · obtain ⟨m, hm, rfl⟩ := node_mem n hn
    obtain ⟨d, hd, rfl⟩ := List.mem_map.mp hc
    obtain ⟨ch, hch, htarget⟩ := hq.input_target m hm d hd
    exact ⟨ch.rename ρ, h.channel_some hch, congrArg ρ.node htarget⟩
  · obtain ⟨m, hm, rfl⟩ := node_mem n hn
    obtain ⟨d, hd, rfl⟩ := List.mem_map.mp hc
    obtain ⟨ch, hch, hsource⟩ := hq.outgoing_source m hm d hd
    exact ⟨ch.rename ρ, h.channel_some hch, congrArg ρ.node hsource⟩
  · obtain ⟨d, hd, rfl⟩ := h.exists_channel (show q'.channel? ⟨i⟩ = some ch from hch)
    have hid : d.id = ρ.channel.symm ⟨i⟩ :=
      congrArg Handle.mk (hq.index_of_channel _ d hd)
    simp [Channel.rename, hid]
  · obtain ⟨d, hd, rfl⟩ := channel_mem ch hch
    exact h.index_lt (hq.source_lt d hd)
  · obtain ⟨d, hd, rfl⟩ := channel_mem ch hch
    exact h.index_lt (hq.target_lt d hd)
  · obtain ⟨t, ht, rfl⟩ := hsinks s hs
    exact h.index_lt (hq.sink_lt t ht)

/-- What feeds a node under new handles feeds it under the old ones. -/
theorem feeds {producer consumer : NodeId} (hf : q'.Feeds producer consumer) :
    q.Feeds (ρ.node.symm producer) (ρ.node.symm consumer) := by
  obtain ⟨c, hc, hsource⟩ := hf
  obtain ⟨ch, hch, rfl⟩ := Option.map_eq_some_iff.mp hsource
  obtain ⟨d, hd, rfl⟩ := h.exists_channel hch
  refine ⟨ρ.channel.symm c, ?_, by simp [Parts.source?, hd]⟩
  unfold Parts.inputsOf at hc
  split at hc
  · rename_i n hn
    obtain ⟨m, hm, rfl⟩ := h.exists_node hn
    obtain ⟨e, he, rfl⟩ := List.mem_map.mp hc
    simpa [Parts.inputsOf, hm] using he
  · simp at hc

/-- Arenas under new handles stay without a cycle. -/
theorem acyclic (hq : q.Acyclic) : q'.Acyclic := by
  obtain ⟨rank, hrank⟩ := hq
  exact ⟨fun id => rank (ρ.node.symm id), fun producer consumer hf => hrank _ _ (h.feeds hf)⟩

end

variable {p p' : Plan}

/-- A plan under new handles is accepted, with any of its sinks. -/
theorem exists_plan {q' : Parts} (h : Carries ρ p.toParts q')
    (hsinks : ∀ s ∈ q'.sinks, ∃ t ∈ p.sinks, ρ.node t = s) :
    ∃ p', ofParts q' = .ok p' ∧ p'.toParts = q' :=
  Plan.exists_plan (h.consistent p.consistent hsinks) (h.acyclic p.acyclic)

section
variable (h : Carries ρ p.toParts p'.toParts)
include h

/-! ## Section 3: Branches and callbacks -/

theorem branchesOf (c : ChannelId) :
    p'.branchesOf (ρ.channel c) = (p.branchesOf c).map (Channel.rename ρ) := by
  cases hch : p.channel? c with
  | none => simp [Plan.branchesOf, h.channel?, hch]
  | some ch =>
    induction c, ch, hch using p.channel_induction with
    | own c ch n hch hn hu =>
      have hch' := h.channel_some hch
      rw [p.branchesOf_of_not_union hch hn hu,
        p'.branchesOf_of_not_union hch' (h.node_some hn) hu]
      rfl
    | union c ch n hch hn hu ih =>
      have hch' := h.channel_some hch
      rw [p.branchesOf_of_union hch hn hu, p'.branchesOf_of_union hch' (h.node_some hn) hu,
        rename_inputs, List.flatMap_map, List.map_flatMap]
      refine List.flatMap_congr fun d hd => ?_
      obtain ⟨dh, hdh, -⟩ := p.exists_channel hn hd
      exact ih d hd dh hdh

theorem flat {c : ChannelId} {ch : Channel} (hch : p.channel? c = some ch) :
    p'.flat (ch.rename ρ) = (p.flat ch).map (Channel.rename ρ) := by
  have hbranches := h.branchesOf c
  simpa only [Plan.branchesOf, h.channel_some hch, hch] using hbranches

/-- The callbacks of a walk from a node under its new handle. -/
theorem callbacks (id : NodeId) :
    p'.callbacks (ρ.node id) = (p.callbacks id).map (Callback.rename ρ) := by
  induction id using p.producers_induction with
  | step id ih =>
    cases hn : p.node? id with
    | none =>
      have hn' : p'.node? (ρ.node id) = none := by rw [h.node?, hn, Option.map_none]
      rw [p.callbacks_of_none hn, p'.callbacks_of_none hn', List.map_nil]
    | some n =>
      have hbelow : (n.rename ρ).inputs.flatMap p'.callbacksOf =
          (n.inputs.flatMap p.callbacksOf).map (Callback.rename ρ) := by
        rw [rename_inputs, List.flatMap_map, List.map_flatMap]
        refine List.flatMap_congr fun c hc => ?_
        obtain ⟨ch, hch, -⟩ := p.exists_channel hn hc
        rw [p.callbacksOf_eq hch, p'.callbacksOf_eq (h.channel_some hch)]
        exact ih n c ch hn hc hch
      rw [p.callbacks_eq hn, p'.callbacks_eq (h.node_some hn), hbelow, rename_isUnion]
      cases n.isUnion <;> simp [Callback.rename]

/-! ## Section 4: Fused nodes and their hosts -/

omit h in
/-- What keeps two nodes from being fused is not read off a handle. -/
theorem between?_rename (producer : Node) (ch : Channel) (n : Node) :
    Blocker.between? (producer.rename ρ) (ch.rename ρ) (n.rename ρ) =
      Blocker.between? producer ch n := by
  simp only [Blocker.between?, rename_isUnion]
  simp only [Node.rename, Channel.rename, List.length_map]
  rfl

/-- What keeps a node from being fused, under its new handle. -/
theorem blocker? {n : Node} (hn : p.node? n.id = some n) (driver : DriverStrategy) :
    blocker? p' (n.rename ρ) driver =
      (Lowering.blocker? p n driver).mapError (StepError.rename ρ) := by
  cases hinputs : n.inputs with
  | nil =>
    rw [p.blocker?_nil hinputs, p'.blocker?_nil (by simp [hinputs])]
    split <;> rfl
  | cons c rest =>
    obtain ⟨ch, hch, -⟩ := p.exists_channel hn (show c ∈ n.inputs by simp [hinputs])
    obtain ⟨producer, hsource⟩ := p.exists_source hch
    have hinputs' : (n.rename ρ).inputs = ρ.channel c :: rest.map ρ.channel := by simp [hinputs]
    rw [p.blocker?_cons hinputs hch hsource,
      p'.blocker?_cons hinputs' (h.channel_some hch) (h.node_some hsource), between?_rename]
    rfl

theorem fuses {n : Node} (hn : p.node? n.id = some n) : p'.fuses (n.rename ρ) = p.fuses n := by
  simp only [Plan.fuses, rename_kind, h.blocker? hn]
  cases n.kind with
  | singleInput driver comparator =>
    simp only
    cases Lowering.blocker? p n driver <;> rfl
  | source | sink | dualInput | union => rfl

/-- What is fused stays fused over its channel with its producer. -/
theorem fused {n : Node} {ch : Channel} {producer : Node} (hf : p.Fused n ch producer) :
    p'.Fused (n.rename ρ) (ch.rename ρ) (producer.rename ρ) where
  driver := hf.driver
  input := by
    obtain ⟨c, rest, hinputs, hch⟩ := hf.input
    exact ⟨ρ.channel c, rest.map ρ.channel, by simp [hinputs], h.channel_some hch⟩
  source := h.node_some hf.source
  not_union := hf.not_union
  ship := hf.ship
  localStrategy := hf.localStrategy
  outgoing := by simpa [Node.rename] using hf.outgoing
  parallelism := hf.parallelism
  subtasks := hf.subtasks

/-- The host of a node under its new handle. -/
theorem host (id : NodeId) : p'.host (ρ.node id) = ρ.node (p.host id) := by
  induction id using p.host_induction with
  | missing id hn =>
    have hn' : p'.node? (ρ.node id) = none := by rw [h.node?, hn, Option.map_none]
    rw [p.host_of_none hn, p'.host_of_none hn']
  | own id n hn hf =>
    obtain rfl := p.id_eq hn
    rw [p.host_of_not_fuses hn hf, p'.host_of_not_fuses (h.node_some hn) ((h.fuses hn).trans hf)]
  | fused id n ch producer hn hfused ih =>
    rw [hfused.host_eq hn, (h.fused hfused).host_eq (h.node_some hn)]
    exact ih

/-! ## Section 5: Entries -/

theorem slotEntries (n : Node) (slot : ChannelId × Nat) :
    p'.slotEntries (n.rename ρ) (ρ.channel slot.1, slot.2) =
      (p.slotEntries n slot).map (Entry.rename ρ) := by
  cases hch : p.channel? slot.1 with
  | none => simp [Plan.slotEntries, h.channel?, hch]
  | some ch =>
    simp only [Plan.slotEntries, h.channel_some hch, hch, h.flat hch, List.map_append, List.map_map]
    rfl

/-- The entries for a callback under new handles. -/
theorem entries {cb : Callback} (hcb : p.node? cb.node.id = some cb.node) :
    p'.entries (cb.rename ρ) = (p.entries cb).map (Entry.rename ρ) := by
  cases cb with
  | enter n => rfl
  | leave n =>
    have hfuses : p'.fuses (n.rename ρ) = p.fuses n := h.fuses hcb
    simp only [Plan.entries, Callback.rename, hfuses]
    cases hf : p.fuses n with
    | true =>
      cases hinputs : n.inputs with
      | nil => simp [hinputs]
      | cons c rest =>
        cases hch : p.channel? c with
        | none => simp [hinputs, h.channel?, hch]
        | some ch => simp [hinputs, h.channel?, hch, Entry.rename]
    | false =>
      simp only [Bool.false_eq_true, if_false, rename_inputs, List.zipIdx_map, List.flatMap_map,
        List.map_flatMap]
      exact List.flatMap_congr fun slot _ => h.slotEntries n slot

/-! ## Section 6: Faults -/

omit h in
/-- Faults of branches name no node. -/
theorem shipFault?_stays (b : Channel) : (shipFault? b).map (StepError.rename ρ) = shipFault? b := by
  unfold shipFault?
  cases b.ship <;> rfl

omit h in
theorem serializerConflict?_stays (branches : List Channel) :
    (serializerConflict? branches).map (StepError.rename ρ) = serializerConflict? branches := by
  cases branches with
  | nil => rfl
  | cons first rest =>
    simp only [serializerConflict?, Option.map_map]
    rfl

variable (ρ) in
omit h in
/-- The fault of an input with branches that carry the same. -/
theorem slotFault?_of_branches {f : Channel → Channel} (hf : ∀ b, (f b).toShipment = b.toShipment)
    {c c' : ChannelId} (hbranches : p'.branchesOf c' = (p.branchesOf c).map f) (n : Node) (i : Nat) :
    p'.slotFault? (n.rename ρ) (c', i) = (p.slotFault? n (c, i)).map (StepError.rename ρ) := by
  simp only [Plan.slotFault?, hbranches, List.map_eq_nil_iff, serializerConflict?_map hf,
    List.findSome?_map]
  split
  · rfl
  · rw [Option.map_or, serializerConflict?_stays, List.map_findSome?]
    congr 2
    funext b
    rw [Function.comp_apply, Function.comp_apply, shipFault?_stays, shipFault?_congr (hf b)]

/-- The fault of an input under its new handle. -/
theorem slotFault? (n : Node) (slot : ChannelId × Nat) :
    p'.slotFault? (n.rename ρ) (ρ.channel slot.1, slot.2) =
      (p.slotFault? n slot).map (StepError.rename ρ) := by
  have hf : ∀ b : Channel, (b.rename ρ).toShipment = b.toShipment := fun _ => rfl
  exact slotFault?_of_branches ρ hf (h.branchesOf slot.1) n slot.2

/-- The fault of entering a node under its new handle. -/
theorem enterFault? {n : Node} (hn : p.node? n.id = some n) :
    p'.enterFault? (n.rename ρ) = (p.enterFault? n).map (StepError.rename ρ) := by
  have hdriver : ∀ d, driverFault? (n.rename ρ) d = (driverFault? n d).map (StepError.rename ρ) := by
    intro d
    unfold driverFault?
    split <;> rfl
  simp only [Plan.enterFault?, rename_kind, h.blocker? hn]
  cases n.kind with
  | singleInput driver comparator =>
    simp only
    cases Lowering.blocker? p n driver with
    | error e => rfl
    | ok blocker =>
      cases blocker with
      | none => rfl
      | some reason => exact hdriver driver
  | dualInput driver first second pairComparator => exact hdriver driver
  | source | sink | union => rfl

/-- The fault of leaving a node under its new handle. -/
theorem leaveFault? {n : Node} (hn : p.node? n.id = some n) :
    p'.leaveFault? (n.rename ρ) = (p.leaveFault? n).map (StepError.rename ρ) := by
  simp only [Plan.leaveFault?, h.fuses hn, rename_inputs, List.length_map]
  split
  · split <;> rfl
  · rw [List.zipIdx_map, List.findSome?_map, List.map_findSome?]
    congr 1
    funext slot
    exact h.slotFault? n slot

end

end Carries

end Plan

end Dataflow
