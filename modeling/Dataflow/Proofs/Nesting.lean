import Dataflow.Proofs.Building
import Dataflow.Proofs.Retracing

/-! # Nested unions

    A union that feeds nothing but another union may as well hand its inputs
    over: whatever reads the outer one reads the same branches in the same order,
    and the walk comes to the same nodes in the same order. Brackets around the
    inputs of a union make no difference to a compilation, for no part of it
    looks at a union but to pass through it.

    Main statements:
    - `Splices.branchesOf`: the branches of a channel when a union is spliced
    - `Splices.retraces`: a plan with a union spliced is walked alike
    - `compile_splice`: a plan with a union spliced is accepted and answered alike
-/

namespace Dataflow

open Lowering

namespace Plan

/-! ## Section 1: Splicing -/

/-- The inputs that stand for one: those of the inner union for the channel from it to the outer one. -/
def expand (u : Node) (c d : ChannelId) : List ChannelId := if d = c then u.inputs else [d]

/-- A node when the union `u` is spliced into the union `w` in the place of its input `c`: the inner
union loses its channels, and the outer one gets the inputs. -/
def Node.splice (n u w : Node) (c : ChannelId) : Node :=
  if n.id = u.id then { n with inputs := [], outgoing := [] }
  else if n.id = w.id then { n with inputs := n.inputs.flatMap (expand u c) }
  else n

/-- A channel when the union `u` is spliced into `w`: an input of the inner union ends at the outer one. -/
def Channel.splice (u w : Node) (ch : Channel) : Channel :=
  if ch.id ∈ u.inputs then { ch with target := w.id } else ch

/-- The parts with the union `u` spliced into the union `w` in the place of its input `c`. The channel
`c` stays, and nothing lists it. -/
def Parts.splice (q : Parts) (u w : Node) (c : ChannelId) : Parts :=
  { q with
    nodes := q.nodes.map fun n => n.splice u w c
    channels := q.channels.map (Channel.splice u w) }

/-- A union is nested in another one: its only outgoing channel ends there. -/
structure Nested (p : Plan) (u w : Node) (c : ChannelId) : Prop where
  /-- The inner node is a node of the plan. -/
  inner : u ∈ p.nodes
  /-- The inner node is a union. -/
  inner_union : u.isUnion = true
  /-- It has one outgoing channel. -/
  outgoing : u.outgoing = [c]
  /-- The channel ends at the outer node. -/
  target : ∃ ch, p.channel? c = some ch ∧ p.node? ch.target = some w
  /-- The outer node is a union. -/
  outer_union : w.isUnion = true

section
variable (u w : Node) (c : ChannelId)

@[simp] theorem splice_id (n : Node) : (n.splice u w c).id = n.id := by
  unfold Node.splice
  split
  · rfl
  · split <;> rfl

@[simp] theorem splice_isUnion (n : Node) : (n.splice u w c).isUnion = n.isUnion := by
  unfold Node.splice
  split
  · rfl
  · split <;> rfl

theorem splice_channel_id (ch : Channel) : (ch.splice u w).id = ch.id := by
  unfold Channel.splice
  split <;> rfl

@[simp] theorem splice_source (ch : Channel) : (ch.splice u w).source = ch.source := by
  unfold Channel.splice
  split <;> rfl

theorem splice_shipment (ch : Channel) : (ch.splice u w).toShipment = ch.toShipment := by
  unfold Channel.splice
  split <;> rfl

theorem node?_splice (q : Parts) (id : NodeId) :
    (q.splice u w c).node? id = (q.node? id).map fun n => n.splice u w c := by
  simp [Parts.node?, Parts.splice]

theorem channel?_splice (q : Parts) (id : ChannelId) :
    (q.splice u w c).channel? id = (q.channel? id).map (Channel.splice u w) := by
  simp [Parts.channel?, Parts.splice]

theorem source?_splice (q : Parts) (id : ChannelId) : (q.splice u w c).source? id = q.source? id := by
  simp [Parts.source?, channel?_splice, Function.comp_def]

/-- Where the channel between the unions is no input, all inputs stand for themselves. -/
theorem flatMap_expand {inputs : List ChannelId} (h : c ∉ inputs) :
    inputs.flatMap (expand u c) = inputs := by
  have hsingle : ∀ d ∈ inputs, expand u c d = [d] := by
    intro d hd
    exact if_neg fun heq : d = c => h (heq ▸ hd)
  rw [List.flatMap_congr hsingle, List.flatMap_singleton']

end

/-! ## Section 2: Nested unions -/

variable {p p' : Plan} {u w : Node} {c : ChannelId}

namespace Nested

section
variable (h : p.Nested u w c)
include h

theorem node? : p.node? u.id = some u := p.node?_of_mem h.inner

/-- The channel between the unions. -/
theorem exists_channel : ∃ ch, p.channel? c = some ch ∧ ch.source = u.id ∧ ch.target = w.id ∧
    p.node? w.id = some w := by
  obtain ⟨ch, hch, hw⟩ := h.target
  obtain ⟨dh, hdh, hsource⟩ := p.consistent.outgoing_source u h.inner c (by simp [h.outgoing])
  obtain rfl : ch = dh := by simpa [hch] using hdh
  have hid := p.id_eq hw
  exact ⟨ch, hch, hsource, hid.symm, hid ▸ hw⟩

/-- Only the outer union reads the channel. -/
theorem id_eq_of_mem {n : Node} (hn : p.node? n.id = some n) (hc : c ∈ n.inputs) : n.id = w.id := by
  obtain ⟨ch, hch, -, htarget, -⟩ := h.exists_channel
  obtain ⟨dh, hdh, hdtarget⟩ := p.exists_channel hn hc
  obtain rfl : ch = dh := by simpa [hch] using hdh
  exact hdtarget.symm.trans htarget

/-- A node that is no union is neither of the two. -/
theorem splice_eq {n : Node} (hn : p.node? n.id = some n) (hu : n.isUnion = false) :
    n.splice u w c = n := by
  obtain ⟨-, -, -, -, hw⟩ := h.exists_channel
  have hne : ∀ m : Node, p.node? m.id = some m → m.isUnion = true → n.id ≠ m.id := by
    intro m hm hmu heq
    rw [p.node?_inj hn hm heq, hmu] at hu
    simp at hu
  unfold Node.splice
  rw [if_neg (hne u h.node? h.inner_union), if_neg (hne w hw h.outer_union)]

/-- A channel that does not end at the inner union stays as it is. -/
theorem splice_channel_eq {d : ChannelId} {dh : Channel} (hdh : p.channel? d = some dh)
    (htarget : dh.target ≠ u.id) : dh.splice u w = dh := by
  unfold Channel.splice
  apply if_neg
  intro hmem
  apply htarget
  obtain ⟨eh, heh, hend⟩ := p.exists_channel h.node? (p.channel_id_eq hdh ▸ hmem)
  obtain rfl : dh = eh := by simpa [hdh] using heh
  exact hend

/-- The inputs of a spliced node, other than the inner union. -/
theorem inputs_splice {n : Node} (hn : p.node? n.id = some n) (hne : n.id ≠ u.id) :
    (n.splice u w c).inputs = n.inputs.flatMap (expand u c) := by
  unfold Node.splice
  rw [if_neg hne]
  by_cases hw : n.id = w.id
  · rw [if_pos hw]
  · rw [if_neg hw, flatMap_expand u c fun hc => hw (h.id_eq_of_mem hn hc)]

/-- An input of a spliced node is one of its own, or comes to the outer union from the inner one. -/
theorem mem_inputs_splice {n : Node} (hn : p.node? n.id = some n) {d : ChannelId}
    (hd : d ∈ (n.splice u w c).inputs) :
    (n.id ≠ u.id ∧ d ∈ n.inputs) ∨ (n.id = w.id ∧ d ∈ u.inputs) := by
  by_cases hne : n.id = u.id
  · simp [Node.splice, hne] at hd
  · rw [h.inputs_splice hn hne] at hd
    obtain ⟨e, he, hd⟩ := List.mem_flatMap.mp hd
    unfold expand at hd
    split at hd
    · rename_i hec
      exact Or.inr ⟨h.id_eq_of_mem hn (hec ▸ he), hd⟩
    · exact Or.inl ⟨hne, List.mem_singleton.mp hd ▸ he⟩

/-- An input of a spliced node ends there. -/
theorem input_target_splice {n : Node} (hn : p.node? n.id = some n) {d : ChannelId}
    (hd : d ∈ (n.splice u w c).inputs) :
    ∃ dh, (p.toParts.splice u w c).channel? d = some dh ∧ dh.target = n.id := by
  rcases h.mem_inputs_splice hn hd with ⟨hne, hd⟩ | ⟨hw, hd⟩
  · obtain ⟨dh, hdh, htarget⟩ := p.exists_channel hn hd
    refine ⟨dh, ?_, htarget⟩
    rw [channel?_splice, hdh, Option.map_some, h.splice_channel_eq hdh (htarget ▸ hne)]
  · -- An input of the inner union ends at the outer one, where it is an input now.
    obtain ⟨dh, hdh, -⟩ := p.exists_channel h.node? hd
    refine ⟨dh.splice u w, by rw [channel?_splice, hdh, Option.map_some], ?_⟩
    rw [Channel.splice, if_pos (p.channel_id_eq hdh ▸ hd), hw]

omit h in
/-- What a spliced node lists starts there. -/
theorem outgoing_source_splice {n : Node} (hn : n ∈ p.nodes) {d : ChannelId}
    (hd : d ∈ (n.splice u w c).outgoing) :
    ∃ dh, (p.toParts.splice u w c).channel? d = some dh ∧ dh.source = n.id := by
  have hd : d ∈ n.outgoing := by
    unfold Node.splice at hd
    split at hd
    · simp at hd
    · split at hd <;> exact hd
  obtain ⟨dh, hdh, hsource⟩ := p.consistent.outgoing_source n hn d hd
  refine ⟨dh.splice u w, by rw [channel?_splice, hdh, Option.map_some], ?_⟩
  rw [splice_source, hsource]

theorem target_splice_lt {dh : Channel} (hdh : dh ∈ p.channels) :
    (dh.splice u w).target.index < p.nodes.size := by
  unfold Channel.splice
  split
  · obtain ⟨-, -, -, -, hw⟩ := h.exists_channel
    exact (Array.getElem?_eq_some_iff.mp hw).1
  · exact p.consistent.target_lt dh hdh

/-- Spliced parts are consistent. -/
theorem consistent_splice : (p.toParts.splice u w c).Consistent := by
  have hsize : (p.toParts.splice u w c).nodes.size = p.nodes.size := Array.size_map
  refine {
    index_of_node := fun i n hn => ?_
    input_target := fun n hn d hd => ?_
    outgoing_source := fun n hn d hd => ?_
    index_of_channel := fun i ch hch => ?_
    source_lt := fun ch hch => ?_
    target_lt := fun ch hch => ?_
    sink_lt := fun s hs => hsize ▸ p.consistent.sink_lt s hs }
  · simp only [Parts.splice, Array.getElem?_map] at hn
    obtain ⟨m, hm, rfl⟩ := Option.map_eq_some_iff.mp hn
    rw [splice_id]
    exact p.consistent.index_of_node i m hm
  · obtain ⟨m, hm, rfl⟩ := Array.mem_map.mp hn
    rw [splice_id]
    exact h.input_target_splice (p.node?_of_mem hm) hd
  · obtain ⟨m, hm, rfl⟩ := Array.mem_map.mp hn
    rw [splice_id]
    exact outgoing_source_splice hm hd
  · simp only [Parts.splice, Array.getElem?_map] at hch
    obtain ⟨d, hd, rfl⟩ := Option.map_eq_some_iff.mp hch
    rw [splice_channel_id]
    exact p.consistent.index_of_channel i d hd
  · obtain ⟨d, hd, rfl⟩ := Array.mem_map.mp hch
    rw [hsize, splice_source]
    exact p.consistent.source_lt d hd
  · obtain ⟨d, hd, rfl⟩ := Array.mem_map.mp hch
    rw [hsize]
    exact h.target_splice_lt hd

end

section
variable (h : p.Nested u w c) (htied : p.Tied)
include h htied

/-- In a built plan the outer union reads the channel, and so the inner one ranks below it. -/
theorem mem_inputs : c ∈ w.inputs ∧ p.rank u.id < p.rank w.id := by
  obtain ⟨ch, hch, hsource, htarget, hw⟩ := h.exists_channel
  have hmem : c ∈ w.inputs := htied.mem_inputs hch (htarget ▸ hw)
  exact ⟨hmem, hsource ▸ p.rank_lt_of_input hw hmem hch⟩

theorem inner_ne_outer : u.id ≠ w.id := by
  intro heq
  have hlt := (h.mem_inputs htied).2
  rw [heq] at hlt
  exact Nat.lt_irrefl _ hlt

/-- In a built plan no other channel starts at the inner union. -/
theorem eq_of_source {d : ChannelId} {dh : Channel} (hdh : p.channel? d = some dh)
    (hsource : dh.source = u.id) : d = c := by
  have hmem : d ∈ u.outgoing := htied.mem_outgoing hdh (hsource ▸ h.node?)
  simpa [h.outgoing] using hmem

theorem not_mem_inner : c ∉ u.inputs :=
  fun hc => h.inner_ne_outer htied (h.id_eq_of_mem h.node? hc)

/-- The ranks of the nodes still grow, for what the outer union reads ranks below the inner one. -/
theorem acyclic_splice : (p.toParts.splice u w c).Acyclic := by
  refine ⟨p.rank, ?_⟩
  rintro producer consumer ⟨d, hd, hsource⟩
  rw [source?_splice] at hsource
  obtain ⟨dh, hdh, rfl⟩ := Option.map_eq_some_iff.mp hsource
  unfold Parts.inputsOf at hd
  rw [node?_splice] at hd
  cases hn : p.node? consumer with
  | none => simp [hn] at hd
  | some n =>
    obtain rfl := p.id_eq hn
    simp only [hn, Option.map_some] at hd
    rcases h.mem_inputs_splice hn hd with ⟨-, hd⟩ | ⟨hw, hd⟩
    · exact p.rank_lt_of_input hn hd hdh
    · calc p.rank dh.source
        _ < p.rank u.id := p.rank_lt_of_input h.node? hd hdh
        _ < p.rank w.id := (h.mem_inputs htied).2
        _ = p.rank n.id := by rw [hw]

end

end Nested

/-! ## Section 3: What is read off the branches -/

/-- A plan is another one with a nested union spliced. -/
structure Splices (u w : Node) (c : ChannelId) (p p' : Plan) : Prop where
  /-- The union is nested. -/
  nested : p.Nested u w c
  /-- The plan lists all its channels. -/
  tied : p.Tied
  /-- No walk starts from the inner union. -/
  not_sink : u.id ∉ p.sinks
  /-- The parts are spliced. -/
  parts : p'.toParts = p.toParts.splice u w c

namespace Splices

variable (h : Splices u w c p p')
include h

theorem node_some {id : NodeId} {n : Node} (hn : p.node? id = some n) :
    p'.node? id = some (n.splice u w c) := by
  rw [h.parts, node?_splice, hn, Option.map_some]

theorem channel_some {d : ChannelId} {dh : Channel} (hdh : p.channel? d = some dh) :
    p'.channel? d = some (dh.splice u w) := by
  rw [h.parts, channel?_splice, hdh, Option.map_some]

section Lists
variable {α β : Type} {F : ChannelId → List α} {G : ChannelId → List β} {f : α → β}
  (hunion : F c = u.inputs.flatMap F)
  (step : ∀ d dh m, d ≠ c → p.channel? d = some dh → p.node? dh.source = some m →
    (m.inputs.flatMap (expand u c)).flatMap G = (m.inputs.flatMap F).map f → G d = (F d).map f)
include hunion step

/-- What is listed by a recursion over inputs, and passes through the inner union, is the same list
for the expanded inputs. -/
theorem flatMap_inputs {id : NodeId} {n : Node} (hn : p.node? id = some n) :
    (n.inputs.flatMap (expand u c)).flatMap G = (n.inputs.flatMap F).map f := by
  induction id using p.producers_induction generalizing n with
  | step id ih =>
    rw [List.flatMap_assoc, List.map_flatMap]
    apply List.flatMap_congr
    intro d hd
    obtain ⟨dh, hdh, -⟩ := p.exists_channel hn hd
    by_cases hdc : d = c
    · -- The channel from the inner union, whose inputs are listed in its place.
      subst hdc
      obtain ⟨ch, hch, hsource, -⟩ := h.nested.exists_channel
      obtain rfl : ch = dh := by simpa [hch] using hdh
      have hinner := ih n d ch hn hd hch (hsource ▸ h.nested.node?)
      rw [flatMap_expand u d (h.nested.not_mem_inner h.tied)] at hinner
      rw [expand, if_pos rfl, hinner, hunion]
    · obtain ⟨m, hm⟩ := p.exists_source hdh
      rw [expand, if_neg hdc, List.flatMap_singleton]
      exact step d dh m hdc hdh hm (ih n d dh hn hd hdh hm)

theorem list_eq {d : ChannelId} {dh : Channel} (hne : d ≠ c) (hdh : p.channel? d = some dh) :
    G d = (F d).map f := by
  obtain ⟨m, hm⟩ := p.exists_source hdh
  exact step d dh m hne hdh hm (h.flatMap_inputs hunion step hm)

end Lists

/-- What a channel starts at is not the inner union, unless it is the channel to the outer one. -/
theorem source_ne {d : ChannelId} {dh : Channel} {m : Node} (hne : d ≠ c)
    (hdh : p.channel? d = some dh) (hm : p.node? dh.source = some m) : m.id ≠ u.id :=
  fun heq => hne (h.nested.eq_of_source h.tied hdh ((p.id_eq hm).symm.trans heq))

/-- A channel that does not start at the inner union has the same branches. Those that ended there end
at the outer one. -/
theorem branchesOf {d : ChannelId} {dh : Channel} (hne : d ≠ c) (hdh : p.channel? d = some dh) :
    p'.branchesOf d = (p.branchesOf d).map (Channel.splice u w) := by
  refine h.list_eq ?_ (fun d dh m hne hdh hm hinputs => ?_) hne hdh
  · obtain ⟨ch, hch, hsource, -⟩ := h.nested.exists_channel
    exact p.branchesOf_of_union hch (hsource ▸ h.nested.node?) h.nested.inner_union
  · have hdh' := h.channel_some hdh
    have hm' : p'.node? (dh.splice u w).source = some (m.splice u w c) := by
      rw [splice_source]
      exact h.node_some hm
    have hmnode : p.node? m.id = some m := p.id_eq hm ▸ hm
    cases hu : m.isUnion with
    | false =>
      rw [p.branchesOf_of_not_union hdh hm hu, p'.branchesOf_of_not_union hdh' hm' (by simpa using hu)]
      rfl
    | true =>
      rw [p.branchesOf_of_union hdh hm hu, p'.branchesOf_of_union hdh' hm' (by simpa using hu),
        h.nested.inputs_splice hmnode (h.source_ne hne hdh hm), hinputs]

/-- A walk from a node has the same callbacks if the walks from its inputs have. -/
theorem callbacks_of_inputs {id : NodeId} {n : Node} (hn : p.node? id = some n) (hne : n.id ≠ u.id)
    (hinputs : (n.inputs.flatMap (expand u c)).flatMap p'.callbacksOf =
      n.inputs.flatMap p.callbacksOf) : p'.callbacks id = p.callbacks id := by
  have hnode : p.node? n.id = some n := p.id_eq hn ▸ hn
  rw [p.callbacks_eq hn, p'.callbacks_eq (h.node_some hn), h.nested.inputs_splice hnode hne, hinputs,
    splice_isUnion]
  cases hu : n.isUnion with
  | true => rfl
  | false => rw [h.nested.splice_eq hnode hu]

/-- A walk from any node but the inner union has the same callbacks. -/
theorem callbacks {start : NodeId} {n : Node} (hn : p.node? start = some n) (hne : n.id ≠ u.id) :
    p'.callbacks start = p.callbacks start := by
  refine h.callbacks_of_inputs hn hne ?_
  have hinputs := h.flatMap_inputs (F := p.callbacksOf) (G := p'.callbacksOf) (f := id) ?_ ?_ hn
  · rw [hinputs, List.map_id]
  · obtain ⟨ch, hch, hsource, -⟩ := h.nested.exists_channel
    rw [p.callbacksOf_eq hch]
    exact p.callbacks_of_union (hsource ▸ h.nested.node?) h.nested.inner_union
  · intro d dh m hne hdh hm hinputs
    rw [List.map_id] at hinputs ⊢
    rw [p.callbacksOf_eq hdh, p'.callbacksOf_eq (h.channel_some hdh), splice_source]
    exact h.callbacks_of_inputs hm (h.source_ne hne hdh hm) hinputs

theorem schedule : p'.schedule = p.schedule := by
  have hsinks : p'.sinks = p.sinks := by rw [h.parts]; rfl
  unfold Plan.schedule
  rw [hsinks]
  congr 1
  apply List.flatMap_congr
  intro s hs
  have hlt := p.consistent.sink_lt s hs
  have hn : p.node? s = some p.nodes[s.index] := Array.getElem?_eq_getElem hlt
  apply h.callbacks hn
  -- A sink is no union, so the walk does not start from the inner one.
  intro heq
  apply h.not_sink
  rw [← heq, p.id_eq hn]
  exact hs

/-! ## Section 4: Nodes that are no unions -/

section
variable {n : Node} (hn : p.node? n.id = some n) (hu : n.isUnion = false)
include hn hu

theorem node_eq : p'.node? n.id = some n := by
  rw [h.node_some hn, h.nested.splice_eq hn hu]

/-- The channel between the unions is no input of another node. -/
theorem input_ne {d : ChannelId} (hd : d ∈ n.inputs) : d ≠ c := by
  rintro rfl
  obtain ⟨-, -, -, -, hw⟩ := h.nested.exists_channel
  rw [p.node?_inj hn hw (h.nested.id_eq_of_mem hn hd), h.nested.outer_union] at hu
  simp at hu

theorem id_ne : n.id ≠ u.id := by
  intro heq
  rw [p.node?_inj hn h.nested.node? heq, h.nested.inner_union] at hu
  simp at hu

/-- Its inputs are the same channels. -/
theorem input_eq {d : ChannelId} (hd : d ∈ n.inputs) :
    ∃ dh, p.channel? d = some dh ∧ p'.channel? d = some dh ∧ dh.splice u w = dh := by
  obtain ⟨dh, hdh, htarget⟩ := p.exists_channel hn hd
  have heq := h.nested.splice_channel_eq hdh (htarget ▸ h.id_ne hn hu)
  exact ⟨dh, hdh, by rw [h.channel_some hdh, heq], heq⟩

/-- The same keeps it from being fused. -/
theorem blocker? (driver : DriverStrategy) : blocker? p' n driver = Lowering.blocker? p n driver := by
  cases hinputs : n.inputs with
  | nil => rw [p.blocker?_nil hinputs, p'.blocker?_nil hinputs]
  | cons d rest =>
    obtain ⟨dh, hdh, hdh', -⟩ := h.input_eq hn hu (show d ∈ n.inputs by simp [hinputs])
    obtain ⟨m, hm⟩ := p.exists_source hdh
    -- A union keeps it from that whatever else it is, and any other producer is the same.
    have hbetween : Blocker.between? (m.splice u w c) dh n = Blocker.between? m dh n := by
      cases hmu : m.isUnion with
      | true => simp [Blocker.between?, hmu]
      | false => rw [h.nested.splice_eq (p.id_eq hm ▸ hm) hmu]
    rw [p.blocker?_cons hinputs hdh hm, p'.blocker?_cons hinputs hdh' (h.node_some hm), hbetween]

theorem fuses : p'.fuses n = p.fuses n := by
  simp only [Plan.fuses, h.blocker? hn hu]

theorem fused {ch : Channel} {producer : Node} (hf : p.Fused n ch producer) :
    p'.Fused n ch producer := by
  obtain ⟨d, rest, hinputs, hch⟩ := hf.input
  obtain ⟨dh, hdh, hdh', -⟩ := h.input_eq hn hu (show d ∈ n.inputs by simp [hinputs])
  obtain rfl : dh = ch := by simpa [hdh] using hch
  have hproducer : p.node? producer.id = some producer := p.id_eq hf.source ▸ hf.source
  exact { hf with
    input := ⟨d, rest, hinputs, hdh'⟩
    source := by rw [h.node_some hf.source, h.nested.splice_eq hproducer hf.not_union] }

theorem slotEntries {slot : ChannelId × Nat} (hslot : slot.1 ∈ n.inputs) :
    p'.slotEntries n slot = (p.slotEntries n slot).map (Entry.carry .refl (Channel.splice u w)) := by
  obtain ⟨dh, hdh, hdh', heq⟩ := h.input_eq hn hu hslot
  have hflat : p'.flat dh = (p.flat dh).map (Channel.splice u w) := by
    have hbranches := h.branchesOf (h.input_ne hn hu hslot) hdh
    simpa only [Plan.branchesOf, hdh, hdh'] using hbranches
  simp [Plan.slotEntries, hdh, hdh', hflat, Entry.carry, heq, Function.comp_def]

/-- Entering it fails alike. -/
theorem enterFault? : p'.enterFault? n = p.enterFault? n := by
  simp only [Plan.enterFault?, h.blocker? hn hu]

/-- Leaving it fails alike. -/
theorem leaveFault? : p'.leaveFault? n = p.leaveFault? n := by
  unfold Plan.leaveFault?
  rw [h.fuses hn hu]
  congr 1
  -- The first fault is the first one of all, so the faults are compared slot by slot.
  rw [← List.head?_filterMap, ← List.head?_filterMap]
  refine congrArg List.head? (List.filterMap_congr fun slot hslot => ?_)
  have hmem := List.fst_mem_of_mem_zipIdx hslot
  obtain ⟨dh, hdh, -⟩ := p.exists_channel hn hmem
  have hbranches := h.branchesOf (h.input_ne hn hu hmem) hdh
  simpa using Carries.slotFault?_of_branches .refl (splice_shipment u w) hbranches n slot.2

end

/-- The entries for a callback are the same, but for the ends of the branches. -/
theorem entries {cb : Callback} (hcb : p.node? cb.node.id = some cb.node)
    (hu : cb.node.isUnion = false) :
    p'.entries cb = (p.entries cb).map (Entry.carry .refl (Channel.splice u w)) := by
  cases cb with
  | enter n => simp [Plan.entries, Entry.carry]
  | leave n =>
    have hn : p.node? n.id = some n := hcb
    have hfuses : p'.fuses n = p.fuses n := h.fuses hn hu
    cases hf : p.fuses n with
    | true =>
      obtain ⟨ch, producer, hfused⟩ := p.exists_fused hn hf
      obtain ⟨d, rest, hinputs, hch⟩ := hfused.input
      obtain ⟨dh, hdh, -, heq⟩ := h.input_eq hn hu (show d ∈ n.inputs by simp [hinputs])
      obtain rfl : dh = ch := by simpa [hdh] using hch
      rw [entries_of_fused hfused, entries_of_fused (h.fused hn hu hfused)]
      simp [Entry.carry, heq]
    | false =>
      simp only [Plan.entries, hfuses, hf, Bool.false_eq_true, if_false, List.map_flatMap]
      exact List.flatMap_congr fun slot hslot =>
        h.slotEntries hn hu (List.fst_mem_of_mem_zipIdx hslot)

/-- The host of a node is the same. -/
theorem host (id : NodeId) : p'.host id = p.host id := by
  induction id using p.host_induction with
  | missing id hn =>
    have hn' : p'.node? id = none := by rw [h.parts, node?_splice, hn, Option.map_none]
    rw [p.host_of_none hn, p'.host_of_none hn']
  | own id n hn hf =>
    obtain rfl := p.id_eq hn
    rw [p.host_of_not_fuses hn hf]
    cases hu : n.isUnion with
    | true =>
      have hu' : (n.splice u w c).isUnion = true := by simpa using hu
      exact p'.host_of_not_fuses (h.node_some hn) (p'.fuses_of_union hu')
    | false => exact p'.host_of_not_fuses (h.node_eq hn hu) ((h.fuses hn hu).trans hf)
  | fused id n ch producer hn hfused ih =>
    obtain rfl := p.id_eq hn
    have hu : n.isUnion = false := by
      obtain ⟨driver, comparator, text, hkind, -⟩ := hfused.driver
      simp [Node.isUnion, Kind.isUnion, hkind]
    rw [hfused.host_eq hn, (h.fused hn hu hfused).host_eq (h.node_eq hn hu)]
    exact ih

/-- A plan with a nested union spliced is walked alike. -/
theorem retraces : Retraces .refl (Channel.splice u w) p p' where
  shipment := splice_shipment u w
  source ch := splice_source u w ch
  node id := by
    rw [refl_node, h.parts, node?_splice]
    cases hn : p.node? id with
    | none => exact .none
    | some n =>
      refine .some ⟨splice_isUnion u w c n, fun hu => ?_⟩
      show n.splice u w c = _
      rw [h.nested.splice_eq (p.id_eq hn ▸ hn) hu, Node.rename_refl]
  schedule := by simpa using h.schedule
  fuses n hn hu := by simpa using h.fuses hn hu
  host := h.host
  entries cb hcb hu := by simpa using h.entries hcb hu
  enterFault? n hn hu := by simpa using h.enterFault? hn hu
  leaveFault? n hn hu := by simpa using h.leaveFault? hn hu
  jobName := by rw [h.parts]; rfl
  config := by rw [h.parts]; rfl
  instanceType := by rw [h.parts]; rfl

end Splices

/-! ## Section 5: Answers -/

theorem SameError.eq_of_refl {e e' : CompileError} (h : SameError .refl p e e') : e' = e := by
  cases h with
  | emptyPlan => rfl
  | step hn phase cause => simp

/-- Under the same handles two results are equal, but for the identifier of the graph. -/
theorem SameResult.eq_of_refl {r r' : Compiler.Result} (h : SameResult .refl r r') {job : JobId}
    (hid : r'.graph.id = job) (hsize : r'.report.placements.size = r.report.placements.size) :
    r' = { r with graph.id := job } := by
  have hplacements : r'.report.placements = r.report.placements := by
    apply Array.ext hsize
    intro i hi' hi
    simpa [Report.placement?, hi, hi'] using h.placement ⟨i⟩
  have hgraph : r'.graph = { r.graph with id := job } := by
    rw [JobGraph.mk.injEq]
    exact ⟨hid, h.name, h.config, h.vertices⟩
  have hreport : r'.report = r.report := by
    rw [Report.mk.injEq]
    exact ⟨h.diagnostics, hplacements, h.anchor⟩
  rw [← hreport, ← hgraph]

/-- A plan with a nested union spliced is answered with the same graph, but for its identifier, and the
same report, or with the same error. -/
theorem Splices.compile (h : Splices u w c p p') (compiler : Compiler) (job job' : JobId) :
    compiler.compile job' p' =
      (compiler.compile job p).map fun r => { r with graph.id := job' } := by
  have hsame := h.retraces.compile compiler job job'
  revert hsame
  generalize hr : compiler.compile job p = answer, hr' : compiler.compile job' p' = answer'
  rintro (hresult | herror)
  · obtain ⟨lead, -, -, rfl⟩ := answer_of_ok hr
    obtain ⟨lead', -, -, rfl⟩ := answer_of_ok hr'
    have hsize : p'.nodes.size = p.nodes.size := by simp [h.parts, Parts.splice]
    refine congrArg Except.ok (hresult.eq_of_refl rfl ?_)
    simpa [answer] using hsize
  · exact congrArg Except.error herror.eq_of_refl

/-- Nested unions are transparent. If a union of a built plan feeds nothing but another union, then the
parts with the inner one spliced into the outer one make a plan, and every compiler answers it as it
answers the first one: with the same graph, but for its identifier, and the same report, or with the
same error. -/
theorem compile_splice {jobName : String} {config : Configuration} {instanceType : Option String}
    {calls : List Builder.Call}
    (hbuild : ((Builder.new jobName config instanceType).after calls).build = .ok p)
    (hnested : p.Nested u w c) :
    ∃ p', ofParts (p.toParts.splice u w c) = .ok p' ∧
      ∀ (compiler : Compiler) (job job' : JobId), compiler.compile job' p' =
        (compiler.compile job p).map fun r => { r with graph.id := job' } := by
  have htied := tied_of_build (tied_after jobName config instanceType calls) hbuild
  obtain ⟨p', hok, hparts⟩ :=
    exists_plan hnested.consistent_splice (hnested.acyclic_splice htied)
  have hsplices : Splices u w c p p' := {
    nested := hnested
    tied := htied
    not_sink := fun hsink => by
      have hkind := (built_of_build hbuild).sink_kind hnested.node? hsink
      simpa [Node.isUnion, Kind.isUnion, hkind] using hnested.inner_union
    parts := hparts }
  exact ⟨p', hok, hsplices.compile⟩

/-! ## Section 6: A plan with a nested union -/

/-- Records of two sources are joined, then those of a third one, and all are written. -/
def nestedCalls : List Builder.Call :=
  let forward : Shipment := { ship := .forward, serializer := ⟨"Line", .empty⟩ }
  [.add { name := "first", kind := .source ⟨"Line", .empty⟩ },
    .add { name := "second", kind := .source ⟨"Line", .empty⟩ },
    .add { name := "third", kind := .source ⟨"Line", .empty⟩ },
    .add { name := "inner", kind := .union }, .add { name := "outer", kind := .union },
    .add { name := "write", kind := .sink },
    .connect ⟨0⟩ ⟨3⟩ forward, .connect ⟨1⟩ ⟨3⟩ forward, .connect ⟨3⟩ ⟨4⟩ forward,
    .connect ⟨2⟩ ⟨4⟩ forward, .connect ⟨4⟩ ⟨5⟩ forward]

/-- The parts that the calls make, with the sink. -/
def nestedParts : Parts :=
  { ((Builder.new "nested").after nestedCalls).parts with sinks := [⟨5⟩] }

theorem nested_consistent : nestedParts.Consistent :=
  nestedParts.inconsistency?_eq_none_iff.mp (by decide)

theorem nested_listing : nestedParts.listing = .ok [⟨5⟩, ⟨4⟩, ⟨3⟩, ⟨2⟩, ⟨1⟩, ⟨0⟩] := by cbv

/-- The plan of these parts. -/
def nested : Plan :=
  { nestedParts with
    consistent := nested_consistent
    acyclic := Parts.acyclic_of_listing nested_consistent nested_listing }

theorem nested_built : ((Builder.new "nested").after nestedCalls).build = .ok nested :=
  nested.ofParts_toParts nested_listing

theorem nested_nested : nested.Nested nested.nodes[3] nested.nodes[4] ⟨2⟩ where
  inner := Array.getElem_mem _
  inner_union := rfl
  outgoing := rfl
  target := ⟨nested.channels[2], rfl, rfl⟩
  outer_union := rfl

theorem nested_compiles (c : Compiler) (job : JobId) : ∃ r, c.compile job nested = .ok r := by
  have hfault : nested.schedule.findSome? nested.callbackFault? = none := by cbv
  have hsink : nested.nodes[5] ∈ nested.ownNodes :=
    nested.sink_mem_ownNodes rfl rfl (List.mem_singleton_self _)
  exact compiles_of_faultless c job hfault hsink

/-- The outer union may read all three sources itself. -/
theorem nested_spliced : ∃ p' r, ofParts (nested.splice nested.nodes[3] nested.nodes[4] ⟨2⟩) = .ok p' ∧
    Compiler.standard.compile .zero nested = .ok r ∧
    Compiler.standard.compile .zero p' = .ok { r with graph.id := .zero } := by
  obtain ⟨r, hr⟩ := nested_compiles .standard .zero
  obtain ⟨p', hok, hcompile⟩ := compile_splice nested_built nested_nested
  refine ⟨p', r, hok, hr, ?_⟩
  rw [hcompile .standard .zero .zero, hr]
  rfl

end Plan

end Dataflow
