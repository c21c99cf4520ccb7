import Dataflow.Plan.Arena

/-! # Consistency of handles

    The handles in the arenas of a plan agree with the arenas: everything
    stands where its handle says, every named entity exists, and a node lists
    only channels that end or start at it.

    Main statement:
    - `inconsistency?_eq_none_iff`: the check finds no fault exactly in
      consistent arenas
-/

namespace Dataflow

namespace Plan

namespace Parts

/-! ## Section 1: The condition -/

/-- The handles agree with the arenas. -/
structure Consistent (q : Parts) : Prop where
  /-- A node stands where its handle says. -/
  index_of_node : ∀ (i : Nat) (n : Node), q.nodes[i]? = some n → n.id.index = i
  /-- An input of a node exists and ends at it. -/
  input_target : ∀ n ∈ q.nodes, ∀ c ∈ n.inputs, ∃ ch, q.channel? c = some ch ∧ ch.target = n.id
  /-- An outgoing channel of a node exists and starts at it. -/
  outgoing_source : ∀ n ∈ q.nodes, ∀ c ∈ n.outgoing,
    ∃ ch, q.channel? c = some ch ∧ ch.source = n.id
  /-- A channel stands where its handle says. -/
  index_of_channel : ∀ (i : Nat) (c : Channel), q.channels[i]? = some c → c.id.index = i
  /-- A channel starts at a node that exists. -/
  source_lt : ∀ c ∈ q.channels, c.source.index < q.nodes.size
  /-- A channel ends at a node that exists. -/
  target_lt : ∀ c ∈ q.channels, c.target.index < q.nodes.size
  /-- The sinks exist. -/
  sink_lt : ∀ s ∈ q.sinks, s.index < q.nodes.size

/-! ## Section 2: The check -/

/-- The first fault of the node at a position: of its own handle, then of all channels that it
lists, then of the ends of its inputs, then of the starts of its outgoing channels. -/
def nodeFault? (q : Parts) (n : Node) (position : Nat) : Option Fault :=
  if n.id.index ≠ position then some (.misplacedNode n.id position)
  else
    ((n.inputs ++ n.outgoing).findSome? fun c =>
      if (q.channel? c).isSome then none else some (.unknownReference n.id c)).or <|
    (n.inputs.findSome? fun c =>
      if (q.channel? c).map (·.target) = some n.id then none else some (.strayInput c n.id)).or <|
    n.outgoing.findSome? fun c =>
      if (q.channel? c).map (·.source) = some n.id then none else some (.strayOutgoing c n.id)

/-- The first fault of the channel at a position. -/
def channelFault? (q : Parts) (c : Channel) (position : Nat) : Option Fault :=
  if c.id.index ≠ position then some (.misplacedChannel c.id position)
  else if c.source.index < q.nodes.size ∧ c.target.index < q.nodes.size then none
  else some (.danglingChannel c.id)

/-- The first fault of the handles: of the nodes in order, then of the channels, then of the
sinks. -/
def inconsistency? (q : Parts) : Option Fault :=
  (q.nodes.toList.zipIdx.findSome? fun entry => q.nodeFault? entry.1 entry.2).or <|
  (q.channels.toList.zipIdx.findSome? fun entry => q.channelFault? entry.1 entry.2).or <|
  q.sinks.findSome? fun s => if s.index < q.nodes.size then none else some (.unknownSink s)

/-! ## Section 3: The check decides the condition -/

theorem nodeFault?_eq_none_iff (q : Parts) (n : Node) (i : Nat) :
    q.nodeFault? n i = none ↔ n.id.index = i ∧
      (∀ c ∈ n.inputs, ∃ ch, q.channel? c = some ch ∧ ch.target = n.id) ∧
      (∀ c ∈ n.outgoing, ∃ ch, q.channel? c = some ch ∧ ch.source = n.id) := by
  unfold nodeFault?
  split
  · rename_i h
    simp [h]
  · rename_i h
    have h : n.id.index = i := by simpa using h
    simp only [Option.or_eq_none_iff, List.findSome?_eq_none_iff, List.mem_append, ite_eq_left_iff,
      Option.map_eq_some_iff, h, true_and]
    constructor
    · rintro ⟨_, hin, hout⟩
      exact ⟨fun c hc => by simpa using hin c hc, fun c hc => by simpa using hout c hc⟩
    · rintro ⟨hin, hout⟩
      refine ⟨fun c hc => ?_, fun c hc => by simpa using hin c hc, fun c hc => by simpa using hout c hc⟩
      rcases hc with hc | hc
      · obtain ⟨ch, h, _⟩ := hin c hc
        simp [h]
      · obtain ⟨ch, h, _⟩ := hout c hc
        simp [h]

theorem channelFault?_eq_none_iff (q : Parts) (c : Channel) (i : Nat) :
    q.channelFault? c i = none ↔ c.id.index = i ∧ c.source.index < q.nodes.size ∧
      c.target.index < q.nodes.size := by
  unfold channelFault?
  split
  · rename_i h
    simp [h]
  · rename_i h
    have h : c.id.index = i := by simpa using h
    simp [h]

/-- The check finds no fault exactly in consistent arenas. -/
theorem inconsistency?_eq_none_iff (q : Parts) : q.inconsistency? = none ↔ q.Consistent := by
  unfold inconsistency?
  simp only [Option.or_eq_none_iff, List.findSome?_eq_none_iff, nodeFault?_eq_none_iff,
    channelFault?_eq_none_iff, Prod.forall, List.mem_zipIdx_iff_getElem?, Array.getElem?_toList]
  constructor
  · rintro ⟨hnode, hchannel, hsink⟩
    have node_mem : ∀ n ∈ q.nodes, ∃ i : Nat, q.nodes[i]? = some n := fun n hn =>
      Array.mem_iff_getElem?.mp hn
    have channel_mem : ∀ c ∈ q.channels, ∃ i : Nat, q.channels[i]? = some c := fun c hc =>
      Array.mem_iff_getElem?.mp hc
    exact {
      index_of_node := fun i n h => (hnode n i h).1
      input_target := fun n hn => by
        obtain ⟨i, hi⟩ := node_mem n hn
        exact (hnode n i hi).2.1
      outgoing_source := fun n hn => by
        obtain ⟨i, hi⟩ := node_mem n hn
        exact (hnode n i hi).2.2
      index_of_channel := fun i c h => (hchannel c i h).1
      source_lt := fun c hc => by
        obtain ⟨i, hi⟩ := channel_mem c hc
        exact (hchannel c i hi).2.1
      target_lt := fun c hc => by
        obtain ⟨i, hi⟩ := channel_mem c hc
        exact (hchannel c i hi).2.2
      sink_lt := fun s hs => by simpa using hsink s hs }
  · intro h
    refine ⟨fun n i hi => ⟨h.index_of_node i n hi, ?_, ?_⟩, fun c i hi => ⟨h.index_of_channel i c hi, ?_, ?_⟩,
      fun s hs => by simpa using h.sink_lt s hs⟩
    · exact h.input_target n (Array.mem_of_getElem? hi)
    · exact h.outgoing_source n (Array.mem_of_getElem? hi)
    · exact h.source_lt c (Array.mem_of_getElem? hi)
    · exact h.target_lt c (Array.mem_of_getElem? hi)

end Parts

end Plan

end Dataflow
