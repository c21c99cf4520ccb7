import Dataflow.Proofs.Built

/-! # How plans are built

    A builder is used by calls that add nodes and connect them, in any order. A
    call that is refused changes nothing. Whatever the calls were, a node lists
    the channels that end at it and those that start at it, all of them and in
    the order of their making. Plans that come from elsewhere promise only that
    what is listed is there.

    Main statements:
    - `tied_after`: the listings after any calls
    - `Tied.mem_outgoing`: in a built plan every channel is listed where it
      starts
-/

namespace Dataflow

namespace Plan

/-! ## Section 1: Calls -/

namespace Builder

/-- A call to a builder. -/
inductive Call where
  /-- Adds a node. -/
  | add (draft : NodeDraft)
  /-- Connects two nodes. -/
  | connect (source target : NodeId) (shipment : Shipment)

/-- The builder after a call. A connection that is refused leaves it as it is. -/
def call (b : Builder) : Call → Builder
  | .add draft =>
    match b.add draft with
    | (_, b') => b'
  | .connect source target shipment =>
    match b.connect source target shipment with
    | .ok (_, b') => b'
    | .error _ => b

/-- The builder after some calls. -/
def after (b : Builder) (calls : List Call) : Builder := calls.foldl call b

end Builder

/-! ## Section 2: Listings -/

/-- The channels that have a property, in the order of their making. -/
def Parts.select (q : Parts) (f : Channel → Bool) : List ChannelId :=
  (q.channels.toList.filter f).map Channel.id

/-- Nodes list exactly the channels that end at them and start at them, in the order of their
making. -/
structure Parts.Tied (q : Parts) : Prop where
  /-- A node stands where its handle says. -/
  node_id : ∀ (i : Nat) (n : Node), q.nodes[i]? = some n → n.id = ⟨i⟩
  /-- A channel stands where its handle says. -/
  channel_id : ∀ (i : Nat) (ch : Channel), q.channels[i]? = some ch → ch.id = ⟨i⟩
  /-- A channel starts at a node. -/
  source_lt : ∀ ch ∈ q.channels, ch.source.index < q.nodes.size
  /-- A channel ends at a node. -/
  target_lt : ∀ ch ∈ q.channels, ch.target.index < q.nodes.size
  /-- The inputs of a node are the channels that end at it. -/
  inputs : ∀ n ∈ q.nodes, n.inputs = q.select fun ch => ch.target = n.id
  /-- The outgoing channels of a node are those that start at it. -/
  outgoing : ∀ n ∈ q.nodes, n.outgoing = q.select fun ch => ch.source = n.id

/-- A node with one more channel, if the channel ends or starts at it. -/
def Node.tie (ch : Channel) (n : Node) : Node :=
  { n with
    inputs := if ch.target = n.id then n.inputs ++ [ch.id] else n.inputs
    outgoing := if ch.source = n.id then n.outgoing ++ [ch.id] else n.outgoing }

@[simp] theorem tie_id (ch : Channel) (n : Node) : (n.tie ch).id = n.id := rfl

theorem select_push (q : Parts) (ch : Channel) (nodes : Array Node) (f : Channel → Bool) :
    ({ q with nodes, channels := q.channels.push ch } : Parts).select f =
      if f ch then q.select f ++ [ch.id] else q.select f := by
  simp only [Parts.select, Array.toList_push, List.filter_append, List.map_append]
  cases h : f ch <;> simp [h]

/-- Nothing is selected by an end that no channel has. -/
theorem select_eq_nil {q : Parts} {f : Channel → Bool} (h : ∀ ch ∈ q.channels, f ch = false) :
    q.select f = [] := by
  rw [Parts.select, List.filter_eq_nil_iff.mpr fun ch hch => by simp [h ch (Array.mem_toList_iff.mp hch)]]
  rfl

/-! ## Section 3: One call -/

variable {b : Builder}

theorem tied_new (jobName : String) (config : Configuration) (instanceType : Option String) :
    (Builder.new jobName config instanceType).parts.Tied where
  node_id i n h := by simp [Builder.new] at h
  channel_id i ch h := by simp [Builder.new] at h
  source_lt ch h := by simp [Builder.new] at h
  target_lt ch h := by simp [Builder.new] at h
  inputs n h := by simp [Builder.new] at h
  outgoing n h := by simp [Builder.new] at h

/-- A node that is added has no channels, and none of those there are starts or ends at it. -/
theorem Parts.Tied.add (h : b.parts.Tied) (draft : NodeDraft) : (b.add draft).2.parts.Tied := by
  have hnodes : ∀ n ∈ b.parts.nodes.push (draft.toNode ⟨b.parts.nodes.size⟩),
      n ∈ b.parts.nodes ∨ n = draft.toNode ⟨b.parts.nodes.size⟩ := fun n hn => Array.mem_push.mp hn
  have hlt : ∀ {i : Nat}, i < b.parts.nodes.size →
      i < (b.parts.nodes.push (draft.toNode ⟨b.parts.nodes.size⟩)).size := by
    intro i hi
    rw [Array.size_push]
    omega
  refine {
    node_id := fun i n hn => ?_
    channel_id := h.channel_id
    source_lt := fun ch hch => hlt (h.source_lt ch hch)
    target_lt := fun ch hch => hlt (h.target_lt ch hch)
    inputs := fun n hn => ?_
    outgoing := fun n hn => ?_ }
  · rw [Builder.add, Array.getElem?_push] at hn
    split at hn
    · rename_i hi
      rw [← Option.some.inj hn, hi]
      rfl
    · exact h.node_id i n hn
  · rcases hnodes n hn with hn | rfl
    · exact h.inputs n hn
    · refine (select_eq_nil fun ch hch => decide_eq_false fun heq => ?_).symm
      exact absurd (heq ▸ h.target_lt ch hch) (Nat.lt_irrefl _)
  · rcases hnodes n hn with hn | rfl
    · exact h.outgoing n hn
    · refine (select_eq_nil fun ch hch => decide_eq_false fun heq => ?_).symm
      exact absurd (heq ▸ h.source_lt ch hch) (Nat.lt_irrefl _)

/-- A connection that is made adds its channel, and ties its two ends to it. -/
theorem connect_ok (h : b.parts.Tied) {source target : NodeId} {shipment : Shipment}
    {id : ChannelId} {b' : Builder} (hok : b.connect source target shipment = .ok (id, b')) :
    ∃ ch : Channel, ch.id = ⟨b.parts.channels.size⟩ ∧ ch.source.index < b.parts.nodes.size ∧
      ch.target.index < b.parts.nodes.size ∧
      b'.parts = { b.parts with
        nodes := b.parts.nodes.map (Node.tie ch), channels := b.parts.channels.push ch } := by
  unfold Builder.connect at hok
  simp only at hok
  split at hok
  · rename_i hends
    split at hok
    · simp at hok
    · rename_i hne
      obtain ⟨-, rfl⟩ : _ ∧ _ = b' := by simpa using hok
      refine ⟨{ shipment with id := ⟨b.parts.channels.size⟩, source, target }, rfl, hends.1, hends.2,
        ?_⟩
      -- The handle of a node is its position, so both ways of tying reach the same two nodes.
      simp only [Parts.mk.injEq, true_and, and_true]
      refine Array.ext_getElem? fun i => ?_
      rw [Array.getElem?_modify, Array.getElem?_modify, Array.getElem?_map]
      cases hn : b.parts.nodes[i]? with
      | none => simp
      | some n =>
        have hid := h.node_id i n hn
        have hat : ∀ end' : NodeId, end'.index = i ↔ end' = n.id := by
          intro end'
          rw [hid]
          exact ⟨fun h => congrArg Handle.mk h, fun h => congrArg Handle.index h⟩
        simp only [hat]
        by_cases hs : source = n.id <;> by_cases ht : target = n.id <;> simp [Node.tie, hs, ht]
  · simp at hok

theorem Parts.Tied.connect (h : b.parts.Tied) {source target : NodeId} {shipment : Shipment}
    {id : ChannelId} {b' : Builder} (hok : b.connect source target shipment = .ok (id, b')) :
    b'.parts.Tied := by
  obtain ⟨ch, hid, hsource, htarget, hparts⟩ := connect_ok h hok
  rw [hparts]
  have hends : ∀ ch' ∈ b.parts.channels.push ch, ch' ∈ b.parts.channels ∨ ch' = ch :=
    fun ch' hch' => Array.mem_push.mp hch'
  refine {
    node_id := fun i n hn => ?_
    channel_id := fun i ch' hch' => ?_
    source_lt := fun ch' hch' => ?_
    target_lt := fun ch' hch' => ?_
    inputs := fun n hn => ?_
    outgoing := fun n hn => ?_ }
  · rw [Array.getElem?_map] at hn
    obtain ⟨m, hm, rfl⟩ := Option.map_eq_some_iff.mp hn
    exact h.node_id i m hm
  · rw [Array.getElem?_push] at hch'
    split at hch'
    · rename_i hi
      rw [← Option.some.inj hch', hid, hi]
    · exact h.channel_id i ch' hch'
  · rw [Array.size_map]
    rcases hends ch' hch' with hch' | rfl
    · exact h.source_lt ch' hch'
    · exact hsource
  · rw [Array.size_map]
    rcases hends ch' hch' with hch' | rfl
    · exact h.target_lt ch' hch'
    · exact htarget
  -- A node lists the new channel exactly if the selection by its end has it.
  · obtain ⟨m, hm, rfl⟩ := Array.mem_map.mp hn
    rw [select_push, tie_id, ← h.inputs m hm]
    by_cases heq : ch.target = m.id <;> simp [Node.tie, heq]
  · obtain ⟨m, hm, rfl⟩ := Array.mem_map.mp hn
    rw [select_push, tie_id, ← h.outgoing m hm]
    by_cases heq : ch.source = m.id <;> simp [Node.tie, heq]

theorem Parts.Tied.call (h : b.parts.Tied) (call : Builder.Call) : (b.call call).parts.Tied := by
  cases call with
  | add draft => exact h.add draft
  | connect source target shipment =>
    simp only [Builder.call]
    cases hok : b.connect source target shipment with
    | ok made => exact h.connect hok
    | error fault => exact h

/-! ## Section 4: Any calls -/

/-- Whatever the calls to a builder were, its nodes list exactly the channels at them. -/
theorem tied_after (jobName : String) (config : Configuration) (instanceType : Option String)
    (calls : List Builder.Call) :
    ((Builder.new jobName config instanceType).after calls).parts.Tied := by
  induction calls using List.reverseRecOn with
  | nil => exact tied_new jobName config instanceType
  | append_singleton calls call ih =>
    rw [Builder.after, List.foldl_append]
    exact Parts.Tied.call ih call

variable {p : Plan}

/-- Building a plan leaves the nodes and the channels as they are. -/
theorem tied_of_build (hb : b.parts.Tied) (h : b.build = .ok p) : p.Tied := by
  rw [(build_ok h).2.2]
  exact { hb with }

/-! ## Section 5: Channels at their ends -/

section
variable {q : Parts} (h : q.Tied)
include h

/-- What is selected are the channels with the property. -/
theorem Parts.Tied.mem_select {f : Channel → Bool} {c : ChannelId} :
    c ∈ q.select f ↔ ∃ ch, q.channel? c = some ch ∧ f ch = true := by
  simp only [Parts.select, List.mem_map, List.mem_filter, Array.mem_toList_iff]
  constructor
  · rintro ⟨ch, ⟨hch, hf⟩, rfl⟩
    obtain ⟨i, hi⟩ := Array.mem_iff_getElem?.mp hch
    refine ⟨ch, ?_, hf⟩
    rw [Parts.channel?, h.channel_id i ch hi]
    exact hi
  · rintro ⟨ch, hch, hf⟩
    exact ⟨ch, ⟨Array.mem_of_getElem? hch, hf⟩, h.channel_id c.index ch hch⟩

/-- A channel is listed at the node that it starts at. -/
theorem Parts.Tied.mem_outgoing {c : ChannelId} {ch : Channel} (hch : q.channel? c = some ch)
    {m : Node} (hm : q.node? ch.source = some m) : c ∈ m.outgoing := by
  rw [h.outgoing m (Array.mem_of_getElem? hm), h.mem_select]
  exact ⟨ch, hch, decide_eq_true (h.node_id _ m hm).symm⟩

/-- A channel is listed at the node that it ends at. -/
theorem Parts.Tied.mem_inputs {c : ChannelId} {ch : Channel} (hch : q.channel? c = some ch)
    {n : Node} (hn : q.node? ch.target = some n) : c ∈ n.inputs := by
  rw [h.inputs n (Array.mem_of_getElem? hn), h.mem_select]
  exact ⟨ch, hch, decide_eq_true (h.node_id _ n hn).symm⟩

end

end Plan

end Dataflow
