import Dataflow.Proofs.Acceptance
import Dataflow.Proofs.Building
import Dataflow.Proofs.Wires

/-! # What a builder builds

    A blueprint is what calls to a builder ask for, written down without one:
    the drafts of the nodes, and the channels between nodes that were there and
    not the same. A plan is built exactly if its blueprint fits, and then it is
    the blueprint laid out: every node with the channels that end at it and those
    that start at it.

    Main statements:
    - `draws_after`: after any calls a builder holds the blueprint of the calls
    - `nodeMisfit?_eq_none_iff`: the nodes that a builder accepts
    - `build_laid_out`: what is built, and when
-/

namespace Dataflow

namespace Plan

/-! ## Section 1: Blueprints -/

/-- What the calls to a builder ask for. -/
structure Blueprint where
  /-- The name of the job. -/
  jobName : String
  /-- The settings of the whole job. -/
  config : Configuration
  /-- The type of the instances, if it is set. -/
  instanceType : Option String
  /-- The nodes that have been added, in order. -/
  drafts : List NodeDraft := []
  /-- The channels that have been made, in order. -/
  channels : List Channel := []

namespace Blueprint

/-- A channel can be made between two nodes: both are there, and they are not the same. -/
def Joins (d : Blueprint) (source target : NodeId) : Prop :=
  source.index < d.drafts.length ∧ target.index < d.drafts.length ∧ source ≠ target

instance (d : Blueprint) (source target : NodeId) : Decidable (d.Joins source target) :=
  inferInstanceAs (Decidable (_ ∧ _ ∧ _))

/-- The blueprint after a call. A channel that cannot be made leaves it as it is. -/
def call (d : Blueprint) : Builder.Call → Blueprint
  | .add draft => { d with drafts := d.drafts ++ [draft] }
  | .connect source target shipment =>
    if d.Joins source target then
      { d with channels := d.channels ++ [{ shipment with id := ⟨d.channels.length⟩, source, target }] }
    else d

/-- The blueprint of some calls. -/
def ofCalls (jobName : String) (config : Configuration) (instanceType : Option String)
    (calls : List Builder.Call) : Blueprint :=
  calls.foldl call { jobName, config, instanceType }

/-- The channels that end at the node at a position. -/
def arriving (d : Blueprint) (position : Nat) : List ChannelId :=
  (d.channels.filter fun ch => ch.target = ⟨position⟩).map Channel.id

/-- The channels that start at the node at a position. -/
def departing (d : Blueprint) (position : Nat) : List ChannelId :=
  (d.channels.filter fun ch => ch.source = ⟨position⟩).map Channel.id

/-- The node of a draft at a position. -/
def node (d : Blueprint) (draft : NodeDraft) (position : Nat) : Node :=
  { draft.toNode ⟨position⟩ with
    inputs := d.arriving position
    outgoing := d.departing position }

/-- The parts that a blueprint describes. The sinks are the nodes of this kind, in order. -/
def parts (d : Blueprint) : Parts where
  jobName := d.jobName
  config := d.config
  instanceType := d.instanceType
  nodes := (d.drafts.zipIdx.map fun e => d.node e.1 e.2).toArray
  channels := d.channels.toArray
  sinks := (d.drafts.zipIdx.filter fun e => e.1.kind = .sink).map fun e => ⟨e.2⟩

end Blueprint

/-- A node of a kind may have a number of inputs. -/
def Kind.Takes : Kind → Nat → Prop
  | .source _, count => count = 0
  | .sink, count => count = 1
  | .singleInput .., count => count = 1
  | .dualInput .., count => count = 2
  | .union, count => 1 ≤ count

/-- The driver of an operator is one for its number of inputs. -/
def Kind.Drives : Kind → Prop
  | .singleInput driver _ => driver.inputCount = 1
  | .dualInput driver .. => driver.inputCount = 2
  | .source _ | .sink | .union => True

/-- What a blueprint has to be to be built. -/
structure Blueprint.Fits (d : Blueprint) : Prop where
  /-- A node has a number of inputs that its kind takes. -/
  inputs : ∀ (i : Nat) (draft : NodeDraft), d.drafts[i]? = some draft → draft.kind.Takes (d.arriving i).length
  /-- An operator has a driver for its number of inputs. -/
  driver : ∀ draft ∈ d.drafts, draft.kind.Drives
  /-- A node has a subtask. -/
  parallelism : ∀ draft ∈ d.drafts, 1 ≤ draft.parallelism.toNat
  /-- No channel starts at a sink. -/
  outgoing : ∀ (i : Nat) (draft : NodeDraft), d.drafts[i]? = some draft → draft.kind = .sink → d.departing i = []
  /-- There is a sink, or no node at all. -/
  sink : d.drafts = [] ∨ ∃ draft ∈ d.drafts, draft.kind = .sink
  /-- The channels make no cycle. -/
  acyclic : ¬ ∃ id, Relation.TransGen
    (fun a b => ∃ ch ∈ d.channels, ch.source = a ∧ ch.target = b) id id

/-- The faults of handles that do not agree with the arenas. -/
def Fault.OfHandles : Fault → Prop
  | misplacedNode .. | unknownReference .. | strayInput .. | strayOutgoing .. | misplacedChannel ..
  | danglingChannel .. | unknownSink .. => True
  | _ => False

/-! ## Section 2: What a builder holds -/

/-- The draft that a node was made from. -/
def Node.draft (n : Node) : NodeDraft :=
  { name := n.name, kind := n.kind, parallelism := n.parallelism
    subtasksPerInstance := n.subtasksPerInstance, memory := n.memory, userCode := n.userCode }

@[simp] theorem draft_toNode (draft : NodeDraft) (id : NodeId) : (draft.toNode id).draft = draft := rfl

@[simp] theorem draft_tie (ch : Channel) (n : Node) : (n.tie ch).draft = n.draft := rfl

/-- A builder holds the nodes and the channels of a blueprint. -/
structure Builder.Draws (b : Builder) (d : Blueprint) : Prop where
  tied : b.parts.Tied
  jobName : b.parts.jobName = d.jobName
  config : b.parts.config = d.config
  instanceType : b.parts.instanceType = d.instanceType
  drafts : b.parts.nodes.toList.map Node.draft = d.drafts
  channels : b.parts.channels.toList = d.channels

namespace Builder.Draws

variable {b : Builder} {d : Blueprint}

theorem size_nodes (h : b.Draws d) : b.parts.nodes.size = d.drafts.length := by
  rw [← h.drafts, List.length_map, Array.length_toList]

theorem size_channels (h : b.Draws d) : b.parts.channels.size = d.channels.length := by
  rw [← h.channels, Array.length_toList]

theorem add (h : b.Draws d) (draft : NodeDraft) : (b.add draft).2.Draws (d.call (.add draft)) where
  tied := h.tied.add draft
  jobName := h.jobName
  config := h.config
  instanceType := h.instanceType
  drafts := by simp [Builder.add, Blueprint.call, h.drafts]
  channels := h.channels

/-- A channel is made exactly if it can be. It gets the next handle. -/
theorem connect (h : b.Draws d) (source target : NodeId) (shipment : Shipment) :
    if d.Joins source target then
      ∃ b', b.connect source target shipment = .ok (⟨d.channels.length⟩, b') ∧
        b'.Draws (d.call (.connect source target shipment))
    else ∃ fault, b.connect source target shipment = .error fault := by
  rw [← h.size_channels]
  split
  · rename_i hjoins
    have ⟨hsource, htarget, hne⟩ := hjoins
    rw [← h.size_nodes] at hsource htarget
    have hok : ∃ b', b.connect source target shipment = .ok (⟨b.parts.channels.size⟩, b') ∧
        b'.parts.channels = b.parts.channels.push
          { shipment with id := ⟨b.parts.channels.size⟩, source, target } := by
      unfold Builder.connect
      simp only [if_pos (And.intro hsource htarget), if_neg hne]
      exact ⟨_, rfl, rfl⟩
    obtain ⟨b', hb', hchannels⟩ := hok
    obtain ⟨ch, -, -, -, hparts⟩ := connect_ok h.tied hb'
    refine ⟨b', hb', ?_⟩
    rw [Blueprint.call, if_pos hjoins]
    exact {
      tied := h.tied.connect hb'
      jobName := by rw [hparts]; exact h.jobName
      config := by rw [hparts]; exact h.config
      instanceType := by rw [hparts]; exact h.instanceType
      drafts := by simp [hparts, Function.comp_def, ← h.drafts]
      channels := by rw [hchannels, Array.toList_push, h.channels, h.size_channels] }
  · rename_i hjoins
    unfold Builder.connect
    simp only [h.size_nodes]
    split
    · split
      · exact ⟨_, rfl⟩
      · rename_i hends hne
        exact absurd ⟨hends.1, hends.2, hne⟩ hjoins
    · exact ⟨_, rfl⟩

theorem call (h : b.Draws d) (call : Builder.Call) : (b.call call).Draws (d.call call) := by
  cases call with
  | add draft => exact h.add draft
  | connect source target shipment =>
    have hconnect := h.connect source target shipment
    unfold Builder.call
    split at hconnect
    · obtain ⟨b', hok, hb'⟩ := hconnect
      simp only [hok]
      exact hb'
    · rename_i hjoins
      obtain ⟨fault, herror⟩ := hconnect
      simp only [herror, Blueprint.call, if_neg hjoins]
      exact h

end Builder.Draws

/-- After any calls a builder holds the blueprint of the calls. -/
theorem draws_after (jobName : String) (config : Configuration) (instanceType : Option String)
    (calls : List Builder.Call) : ((Builder.new jobName config instanceType).after calls).Draws
      (.ofCalls jobName config instanceType calls) := by
  induction calls using List.reverseRecOn with
  | nil =>
    exact {
      tied := tied_new jobName config instanceType
      jobName := rfl
      config := rfl
      instanceType := rfl
      drafts := rfl
      channels := rfl }
  | append_singleton calls call ih =>
    rw [Builder.after, Blueprint.ofCalls, List.foldl_append, List.foldl_append]
    exact ih.call call

/-! ## Section 3: The blueprint laid out -/

namespace Blueprint

variable {d : Blueprint}

theorem getElem?_nodes (d : Blueprint) (i : Nat) :
    d.parts.nodes[i]? = d.drafts[i]?.map fun draft => d.node draft i := by
  rw [parts, List.getElem?_toArray, List.getElem?_map, List.getElem?_zipIdx, Option.map_map,
    Nat.zero_add]
  rfl

theorem size_nodes (d : Blueprint) : d.parts.nodes.size = d.drafts.length := by
  simp [parts]

theorem mem_nodes {n : Node} :
    n ∈ d.parts.nodes ↔ ∃ (i : Nat) (draft : NodeDraft), d.drafts[i]? = some draft ∧
      d.node draft i = n := by
  simp only [Array.mem_iff_getElem?, d.getElem?_nodes, Option.map_eq_some_iff]

theorem mem_sinks {id : NodeId} :
    id ∈ d.parts.sinks ↔ ∃ draft, d.drafts[id.index]? = some draft ∧ draft.kind = .sink := by
  simp only [parts, List.mem_map, List.mem_filter, decide_eq_true_eq, Prod.exists,
    List.mem_zipIdx_iff_getElem?]
  constructor
  · rintro ⟨draft, i, ⟨hdraft, hsink⟩, rfl⟩
    exact ⟨draft, hdraft, hsink⟩
  · rintro ⟨draft, hdraft, hsink⟩
    exact ⟨draft, id.index, ⟨hdraft, hsink⟩, rfl⟩

end Blueprint

/-- A builder holds the parts of its blueprint, but for the sinks. -/
theorem Builder.Draws.parts_eq {b : Builder} {d : Blueprint} (h : b.Draws d) :
    { b.parts with sinks := b.sinks } = d.parts := by
  have hnodes : b.parts.nodes = d.parts.nodes := by
    apply Array.ext_getElem?
    intro i
    rw [d.getElem?_nodes, ← h.drafts, List.getElem?_map, Array.getElem?_toList, Option.map_map]
    cases hn : b.parts.nodes[i]? with
    | none => rfl
    | some n =>
      have hmem := Array.mem_of_getElem? hn
      have hid := h.tied.node_id i n hn
      have hinputs := h.tied.inputs n hmem
      have houtgoing := h.tied.outgoing n hmem
      rw [Parts.select, h.channels, hid] at hinputs houtgoing
      -- A node is its draft with its handle and its channels.
      have hnode : n = { n.draft.toNode n.id with inputs := n.inputs, outgoing := n.outgoing } := rfl
      rw [hinputs, houtgoing, hid] at hnode
      exact congrArg some hnode
  have hsinks : b.sinks = d.parts.sinks := by
    have hkind : ∀ kind : Kind, kind.isSink = decide (kind = .sink) := by
      intro kind
      cases kind <;> rfl
    rw [Builder.sinks, hnodes]
    simp only [hkind, Blueprint.parts, List.filter_map, List.map_map]
    rfl
  have hchannels : b.parts.channels = d.parts.channels := by
    rw [Blueprint.parts, ← h.channels]
  show (⟨b.parts.jobName, b.parts.config, b.parts.instanceType, b.parts.nodes, b.parts.channels,
    b.sinks⟩ : Parts) = d.parts
  rw [hsinks, hnodes, hchannels, h.jobName, h.config, h.instanceType]
  rfl

/-! ## Section 4: Nodes that are accepted -/

theorem nodeMisfit?_eq_none_iff {n : Node} : Builder.nodeMisfit? n = none ↔
    n.kind.Takes n.inputs.length ∧ n.kind.Drives ∧ 1 ≤ n.parallelism.toNat ∧
      (n.kind = .sink → n.outgoing = []) := by
  have hpositive : n.parallelism ≠ 0 ↔ 1 ≤ n.parallelism.toNat := by
    rw [← UInt32.toNat_inj.ne, Nat.one_le_iff_ne_zero]
    rfl
  have hlength : n.inputs ≠ [] ↔ 1 ≤ n.inputs.length := List.length_pos_iff.symm
  cases hkind : n.kind <;>
    simp only [Builder.nodeMisfit?, hkind, Kind.Takes, Kind.Drives, Kind.inputCount?, Kind.driver?,
      Kind.isSink, Option.or_eq_none_iff, Option.bind_none, Option.bind_some, ite_eq_left_iff,
      ite_eq_right_iff, reduceCtorEq, imp_false, Decidable.not_not, false_and, true_and, and_true,
      false_imp_iff, forall_const, not_false_eq_true, Bool.false_eq_true, Option.some.injEq, ne_eq,
      ← hpositive, ← hlength]

/-- A node is not refused for its handles. -/
theorem not_ofHandles_of_nodeMisfit? {n : Node} {fault : Fault}
    (h : Builder.nodeMisfit? n = some fault) : ¬ fault.OfHandles := by
  simp only [Builder.nodeMisfit?, Option.or_eq_some_iff, Option.bind_eq_some_iff,
    Option.ite_none_left_eq_some, Option.ite_none_right_eq_some, Option.some.injEq] at h
  rcases h with h | ⟨-, ⟨driver, -, -, rfl⟩ | ⟨-, ⟨-, rfl⟩ | ⟨-, -, rfl⟩⟩⟩
  · cases hcount : n.kind.inputCount? <;>
      simp only [hcount, Option.ite_none_left_eq_some, Option.ite_none_right_eq_some,
        Option.some.injEq] at h <;>
      obtain ⟨-, rfl⟩ := h <;> exact id
  all_goals exact id

namespace Blueprint

variable {d : Blueprint}

/-- No node of a blueprint is refused. -/
theorem findSome?_nodeMisfit? : d.parts.nodes.toList.findSome? Builder.nodeMisfit? = none ↔
    ∀ (i : Nat) (draft : NodeDraft), d.drafts[i]? = some draft →
      draft.kind.Takes (d.arriving i).length ∧ draft.kind.Drives ∧ 1 ≤ draft.parallelism.toNat ∧
        (draft.kind = .sink → d.departing i = []) := by
  rw [List.findSome?_eq_none_iff]
  constructor
  · intro h i draft hdraft
    have hmem := mem_nodes.mpr ⟨i, draft, hdraft, rfl⟩
    exact nodeMisfit?_eq_none_iff.mp (h _ (Array.mem_toList_iff.mpr hmem))
  · intro h n hn
    obtain ⟨i, draft, hdraft, rfl⟩ := mem_nodes.mp (Array.mem_toList_iff.mp hn)
    exact nodeMisfit?_eq_none_iff.mpr (h i draft hdraft)

theorem sinks_iff : (d.parts.sinks = [] ∧ 0 < d.parts.nodes.size) ↔
    ¬ (d.drafts = [] ∨ ∃ draft ∈ d.drafts, draft.kind = .sink) := by
  have hsinks : d.parts.sinks = [] ↔ ¬ ∃ draft ∈ d.drafts, draft.kind = .sink := by
    rw [List.eq_nil_iff_forall_not_mem, ← not_exists]
    apply not_congr
    constructor
    · rintro ⟨id, hid⟩
      obtain ⟨draft, hdraft, hsink⟩ := mem_sinks.mp hid
      exact ⟨draft, List.mem_of_getElem? hdraft, hsink⟩
    · rintro ⟨draft, hdraft, hsink⟩
      obtain ⟨i, hi⟩ := List.mem_iff_getElem?.mp hdraft
      exact ⟨⟨i⟩, mem_sinks.mpr ⟨draft, hi, hsink⟩⟩
  rw [hsinks, d.size_nodes, List.length_pos_iff, not_or, and_comm]

end Blueprint

/-! ## Section 5: Parts whose nodes list the channels at them -/

/-- The handles of elements that stand where their handles say. -/
theorem map_handles {α : Type} {arena : Arena} {id : α → Handle arena} {elements : Array α}
    (h : ∀ (i : Nat) (a : α), elements[i]? = some a → id a = ⟨i⟩) :
    elements.toList.map id = (List.range elements.size).map Handle.mk := by
  apply List.ext_getElem (by simp)
  intro i hi _
  rw [List.length_map, Array.length_toList] at hi
  simpa using h i _ (Array.getElem?_eq_getElem hi)

theorem nodup_handles {arena : Arena} {size : Nat} :
    ((List.range size).map fun i => (⟨i⟩ : Handle arena)).Nodup :=
  List.nodup_range.map fun _ _ h => congrArg Handle.index h

section
variable {q : Parts} (h : q.Tied)
include h

/-- Their handles agree with the arenas, if the sinks are there. -/
theorem Parts.Tied.consistent (hsinks : ∀ s ∈ q.sinks, s.index < q.nodes.size) : q.Consistent where
  index_of_node i n hn := congrArg Handle.index (h.node_id i n hn)
  input_target n hn c hc := by
    rw [h.inputs n hn, h.mem_select] at hc
    simpa using hc
  outgoing_source n hn c hc := by
    rw [h.outgoing n hn, h.mem_select] at hc
    simpa using hc
  index_of_channel i ch hch := congrArg Handle.index (h.channel_id i ch hch)
  source_lt := h.source_lt
  target_lt := h.target_lt
  sink_lt := hsinks

/-- One node feeds another if a channel leads from it to the other. -/
theorem Parts.Tied.feeds_iff {producer consumer : NodeId} : q.Feeds producer consumer ↔
    ∃ ch ∈ q.channels, ch.source = producer ∧ ch.target = consumer := by
  constructor
  · rintro ⟨c, hc, hsource⟩
    obtain ⟨ch, hch, rfl⟩ := Option.map_eq_some_iff.mp hsource
    refine ⟨ch, Array.mem_of_getElem? hch, rfl, ?_⟩
    unfold Parts.inputsOf at hc
    split at hc
    · rename_i n hn
      rw [h.inputs n (Array.mem_of_getElem? hn), h.mem_select] at hc
      obtain ⟨ch', hch', htarget⟩ := hc
      obtain rfl : ch = ch' := Option.some.inj (hch.symm.trans hch')
      rw [of_decide_eq_true htarget, h.node_id _ n hn]
    · exact absurd hc List.not_mem_nil
  · rintro ⟨ch, hch, rfl, rfl⟩
    obtain ⟨i, hi⟩ := Array.mem_iff_getElem?.mp hch
    have hchannel : q.channel? ch.id = some ch := by
      rw [Parts.channel?, h.channel_id i ch hi]
      exact hi
    have hn : q.node? ch.target = some _ := Array.getElem?_eq_getElem (h.target_lt ch hch)
    refine ⟨ch.id, ?_, by rw [Parts.source?, hchannel, Option.map_some]⟩
    simp only [Parts.inputsOf, hn]
    exact h.mem_inputs hchannel hn

/-- No two channels have one handle. -/
theorem Parts.Tied.nodup_ids : (q.channels.toList.map Channel.id).Nodup := by
  rw [map_handles h.channel_id]
  exact nodup_handles

/-- The nodes between them list every channel once, if a node lists the channels that have one end at
it. -/
theorem Parts.Tied.flatMap_select_perm (ending : Channel → NodeId)
    (hlt : ∀ ch ∈ q.channels, (ending ch).index < q.nodes.size) :
    (q.nodes.toList.flatMap fun n => q.select fun ch => ending ch = n.id).Perm
      (q.channels.toList.map Channel.id) := by
  have hids := map_handles h.node_id
  have hmem : ∀ ch ∈ q.channels.toList, ending ch ∈ q.nodes.toList.map Node.id := by
    intro ch hch
    rw [hids]
    exact List.mem_map.mpr ⟨_, List.mem_range.mpr (hlt ch (Array.mem_toList_iff.mp hch)), rfl⟩
  have hperm := flatMap_owner_perm (hids ▸ nodup_handles) ending (fun ch => some ch.id)
    fun ch hch _ => hmem ch hch
  have hselect : ∀ n : Node, q.select (fun ch => ending ch = n.id) =
      q.channels.toList.filterMap fun ch => if ending ch = n.id then some ch.id else none := by
    intro n
    rw [Parts.select, ← List.filterMap_eq_map, List.filterMap_filter]
    simp
  rw [List.flatMap_map, List.filterMap_eq_map'] at hperm
  simp only [hselect]
  exact hperm

/-- The inputs of the nodes are all channels, each once. -/
theorem Parts.Tied.flatMap_inputs_perm :
    (q.nodes.toList.flatMap Node.inputs).Perm (q.channels.toList.map Channel.id) := by
  refine (List.Perm.of_eq ?_).trans (h.flatMap_select_perm Channel.target h.target_lt)
  exact List.flatMap_congr fun n hn => h.inputs n (Array.mem_toList_iff.mp hn)

/-- The outgoing channels of the nodes are all channels, each once. -/
theorem Parts.Tied.flatMap_outgoing_perm :
    (q.nodes.toList.flatMap Node.outgoing).Perm (q.channels.toList.map Channel.id) := by
  refine (List.Perm.of_eq ?_).trans (h.flatMap_select_perm Channel.source h.source_lt)
  exact List.flatMap_congr fun n hn => h.outgoing n (Array.mem_toList_iff.mp hn)

end

/-! ## Section 6: What is built -/

section
variable {b : Builder} {d : Blueprint} (h : b.Draws d)
include h

theorem Builder.Draws.tied_parts : d.parts.Tied := by
  rw [← h.parts_eq]
  exact { h.tied with }

theorem Builder.Draws.consistent : d.parts.Consistent := by
  apply h.tied_parts.consistent
  intro id hid
  obtain ⟨draft, hdraft, -⟩ := Blueprint.mem_sinks.mp hid
  rw [d.size_nodes]
  exact (List.getElem?_eq_some_iff.mp hdraft).1

/-- What a builder answers is seen from its blueprint. -/
theorem Builder.Draws.build_eq : b.build =
    match d.parts.nodes.toList.findSome? nodeMisfit? with
    | some fault => .error fault
    | none =>
      if d.parts.sinks = [] ∧ 0 < d.parts.nodes.size then .error .noSinks else ofParts d.parts := by
  rw [← h.parts_eq]
  rfl

theorem Builder.Draws.acyclic_iff : d.parts.Acyclic ↔ ¬ ∃ id, Relation.TransGen
    (fun a b => ∃ ch ∈ d.channels, ch.source = a ∧ ch.target = b) id id := by
  rw [h.consistent.acyclic_iff, Parts.cyclic_iff]
  have hfeeds : d.parts.Feeds = fun a b => ∃ ch ∈ d.channels, ch.source = a ∧ ch.target = b := by
    funext producer consumer
    rw [h.tied_parts.feeds_iff]
    simp [Blueprint.parts]
  rw [Parts.FeedsThrough, hfeeds]

/-- A plan is built exactly if the blueprint fits. -/
theorem Builder.Draws.build_iff : (∃ p, b.build = .ok p) ↔ d.Fits := by
  rw [h.build_eq]
  constructor
  · rintro ⟨p, hp⟩
    split at hp
    · simp at hp
    · rename_i hmisfit
      split at hp
      · simp at hp
      · rename_i hsinks
        have hnodes := Blueprint.findSome?_nodeMisfit?.mp hmisfit
        have hdrafts : ∀ draft ∈ d.drafts, ∃ i : Nat, d.drafts[i]? = some draft := fun draft hdraft =>
          List.mem_iff_getElem?.mp hdraft
        exact {
          inputs := fun i draft hi => (hnodes i draft hi).1
          driver := fun draft hdraft => by
            obtain ⟨i, hi⟩ := hdrafts draft hdraft
            exact (hnodes i draft hi).2.1
          parallelism := fun draft hdraft => by
            obtain ⟨i, hi⟩ := hdrafts draft hdraft
            exact (hnodes i draft hi).2.2.1
          outgoing := fun i draft hi => (hnodes i draft hi).2.2.2
          sink := Decidable.not_not.mp (mt Blueprint.sinks_iff.mpr hsinks)
          acyclic := h.acyclic_iff.mp (toParts_of_ofParts hp ▸ p.acyclic) }
  · intro hfits
    have hmisfit := Blueprint.findSome?_nodeMisfit?.mpr fun i draft hi =>
      ⟨hfits.inputs i draft hi, hfits.driver draft (List.mem_of_getElem? hi),
        hfits.parallelism draft (List.mem_of_getElem? hi), hfits.outgoing i draft hi⟩
    obtain ⟨p, hp, -⟩ := exists_plan h.consistent (h.acyclic_iff.mpr hfits.acyclic)
    refine ⟨p, ?_⟩
    rw [hmisfit]
    simp only [if_neg fun hsinks => Blueprint.sinks_iff.mp hsinks hfits.sink]
    exact hp

/-- What is wrong with the handles is never what keeps a plan from being built. -/
theorem Builder.Draws.error {fault : Fault} (herror : b.build = .error fault) : ¬ fault.OfHandles := by
  rw [h.build_eq] at herror
  split at herror
  · rename_i misfit hmisfit
    obtain rfl : misfit = fault := Except.error.inj herror
    obtain ⟨n, -, hn⟩ := List.exists_of_findSome?_eq_some hmisfit
    exact not_ofHandles_of_nodeMisfit? hn
  · split at herror
    · obtain rfl := Except.error.inj herror
      exact id
    · have hnone := d.parts.inconsistency?_eq_none_iff.mpr h.consistent
      have hcheck := d.parts.map_ofParts
      rw [herror, hnone] at hcheck
      cases hlisting : d.parts.listing with
      | error n =>
        rw [hlisting] at hcheck
        obtain rfl : fault = .cycle n := Except.error.inj hcheck
        exact id
      | ok l =>
        rw [hlisting] at hcheck
        cases hcheck

end

/-- What is built, and when. A channel is made if its ends are there and not the same, and another one
is refused and changes nothing. A plan is built exactly if the blueprint of the calls fits, and then it
is the blueprint laid out: every node lists the channels that end at it and those that start at it, in
the order in which they were made, so that every channel is listed once as an input and once as
outgoing, and the sinks are the nodes of this kind in order. What is built is never refused for its
handles. -/
theorem build_laid_out (jobName : String) (config : Configuration) (instanceType : Option String)
    (calls : List Builder.Call) :
    let b := (Builder.new jobName config instanceType).after calls
    let d := Blueprint.ofCalls jobName config instanceType calls
    (∀ source target shipment, (b.connect source target shipment).toOption.map Prod.fst =
      if d.Joins source target then some ⟨d.channels.length⟩ else none) ∧
    ((∃ p, b.build = .ok p) ↔ d.Fits) ∧
    (∀ p : Plan, b.build = .ok p → p.toParts = d.parts ∧
      (p.nodes.toList.flatMap Node.inputs).Perm (d.channels.map Channel.id) ∧
      (p.nodes.toList.flatMap Node.outgoing).Perm (d.channels.map Channel.id) ∧
      (d.channels.map Channel.id).Nodup) ∧
    ∀ fault, b.build = .error fault → ¬ fault.OfHandles := by
  intro b d
  have hdraws : b.Draws d := draws_after jobName config instanceType calls
  refine ⟨fun source target shipment => ?_, hdraws.build_iff, fun p hp => ?_,
    fun fault => hdraws.error⟩
  · have hconnect := hdraws.connect source target shipment
    split at hconnect
    · rename_i hjoins
      obtain ⟨b', hb', -⟩ := hconnect
      rw [hb', if_pos hjoins]
      rfl
    · rename_i hjoins
      obtain ⟨fault, hfault⟩ := hconnect
      rw [hfault, if_neg hjoins]
      rfl
  · have hparts : p.toParts = d.parts := (build_ok hp).2.2.trans hdraws.parts_eq
    have htied : p.toParts.Tied := hparts ▸ hdraws.tied_parts
    have hchannels : p.channels.toList = d.channels := by
      rw [hparts, Blueprint.parts]
    rw [← hchannels]
    exact ⟨hparts, htied.flatMap_inputs_perm, htied.flatMap_outgoing_perm, htied.nodup_ids⟩

/-! ## Section 7: Calls that are refused -/

/-- Lines are read, trimmed and written. A channel is asked for before its end is there, and one from a
node to itself. -/
def carelessCalls : List Builder.Call :=
  let forward : Shipment := { ship := .forward, serializer := ⟨"Line", .empty⟩ }
  [.add { name := "read", kind := .source ⟨"Line", .empty⟩ },
    .connect ⟨0⟩ ⟨1⟩ forward,
    .add { name := "trim", kind := .singleInput .map none },
    .connect ⟨1⟩ ⟨1⟩ forward,
    .add { name := "write", kind := .sink },
    .connect ⟨1⟩ ⟨2⟩ forward, .connect ⟨0⟩ ⟨1⟩ forward]

/-- The parts that the calls make, with the sink. -/
def carelessParts : Parts :=
  { ((Builder.new "careless").after carelessCalls).parts with sinks := [⟨2⟩] }

theorem careless_consistent : carelessParts.Consistent :=
  carelessParts.inconsistency?_eq_none_iff.mp (by decide)

theorem careless_listing : carelessParts.listing = .ok [⟨2⟩, ⟨1⟩, ⟨0⟩] := by cbv

/-- The plan of these parts. -/
def careless : Plan :=
  { carelessParts with
    consistent := careless_consistent
    acyclic := Parts.acyclic_of_listing careless_consistent careless_listing }

theorem careless_built : ((Builder.new "careless").after carelessCalls).build = .ok careless :=
  careless.ofParts_toParts careless_listing

/-- Of four channels that are asked for two are made, and the plan is the blueprint of the calls. -/
theorem careless_laid_out : (Blueprint.ofCalls "careless" .empty none carelessCalls).Fits ∧
    (Blueprint.ofCalls "careless" .empty none carelessCalls).channels.map Channel.source = [⟨1⟩, ⟨0⟩] ∧
    careless.toParts = (Blueprint.ofCalls "careless" .empty none carelessCalls).parts := by
  obtain ⟨-, hfits, hbuilt, -⟩ := build_laid_out "careless" .empty none carelessCalls
  exact ⟨hfits.mp ⟨careless, careless_built⟩, by decide, (hbuilt careless careless_built).1⟩

end Plan

end Dataflow
