import Dataflow.Proofs.Renaming
import Dataflow.Proofs.Threads

/-! # The order of the sinks

    The walk starts from the sinks in their order, and with it go the numbers of
    the vertices, the order in which wires are made and the one in which hosts
    become known. What the walk does for a node does not depend on when it comes
    there, so that in another order the same is built under other numbers. Only
    the positions of fused tasks come from the order of the walk; in a built plan
    they are those of a path, which has one order only.

    Main statement:
    - `compile_sinks_perm`: a built plan whose sinks are in another order
      compiles to the same graph, up to numbering
-/

namespace Dataflow

open Lowering

/-! ## Section 1: Results without numbers -/

namespace Lowering

/-- The node that has a vertex of its own. -/
def Report.owner? (r : Report) (id : VertexId) : Option NodeId :=
  ((List.range r.placements.size).map Handle.mk).find? fun node =>
    r.placement? node = some (.vertex id)

/-- A placement, with nodes in the place of their vertices. -/
inductive Seat where
  /-- The node has a vertex. -/
  | vertex
  /-- The node is a fused task at the vertex of another one. -/
  | chained (host : Option NodeId) (position : Nat)
  /-- The node is a union. -/
  | spliced
deriving DecidableEq

/-- The placement of a node, with nodes in the place of their vertices. -/
def Report.seat? (r : Report) (id : NodeId) : Option Seat :=
  (r.placement? id).map fun
    | .vertex _ => .vertex
    | .chained place => .chained (r.owner? place.host) place.position
    | .spliced => .spliced

/-- What an edge connects, with nodes in the place of their vertices. -/
structure Connection where
  /-- The node whose vertex the edge leaves from. -/
  source : Option NodeId
  /-- The node whose vertex the edge ends at. -/
  target : Option NodeId
  /-- Its transport. -/
  transport : Transport
  /-- Its pattern. -/
  pattern : Pattern
deriving DecidableEq

/-- An edge with nodes in the place of their vertices. -/
def Report.connection (r : Report) (e : Edge) : Connection where
  source := r.owner? e.source
  target := r.owner? e.target
  transport := e.transport
  pattern := e.pattern

end Lowering

/-- Two results are the same up to the numbers of the vertices and the order of the wires. -/
structure Compiler.Renumbered (r r' : Compiler.Result) : Prop where
  /-- A vertex is that of a node, in both. -/
  owned : ∀ v, ((r.graph.vertex? v).isSome = true → (r.report.owner? v).isSome = true) ∧
    ((r'.graph.vertex? v).isSome = true → (r'.report.owner? v).isSome = true)
  /-- Every node has the same kind of placement, and a fused one has the same host and position. -/
  seat : ∀ id, r'.report.seat? id = r.report.seat? id
  /-- The same nodes are connected in the same ways. -/
  edges : (r'.graph.edges.map r'.report.connection).Perm (r.graph.edges.map r.report.connection)
  /-- A node has a configuration in both or in neither, and then it has the same input slots and the
  same output slots, these in any order. -/
  config : ∀ id, Option.Rel (fun t t' => t'.inputs = t.inputs ∧ t'.outputs.Perm t.outputs)
    (r.config? id) (r'.config? id)
  /-- The anchors have the same parallelism. -/
  anchor : ∃ v v', r.graph.vertex? r.report.anchor = some v ∧
    r'.graph.vertex? r'.report.anchor = some v' ∧ v'.parallelism = v.parallelism

namespace Plan

/-! ## Section 2: Plans that start from the same sinks -/

/-- A plan is another one with its sinks in another order. -/
structure Shuffles (p p' : Plan) : Prop where
  /-- The nodes are the same. -/
  nodes : p'.nodes = p.nodes
  /-- The channels are the same. -/
  channels : p'.channels = p.channels
  /-- The sinks are the same, in any order. -/
  sinks : p'.sinks.Perm p.sinks

variable {p p' : Plan} {policy : SpillPolicy} {job : JobId}

namespace Shuffles

section
variable (h : Shuffles p p')
include h

theorem symm : Shuffles p' p := ⟨h.nodes.symm, h.channels.symm, h.sinks.symm⟩

theorem node? (id : NodeId) : p'.node? id = p.node? id := by rw [Parts.node?, h.nodes]; rfl

theorem channel? (id : ChannelId) : p'.channel? id = p.channel? id := by
  rw [Parts.channel?, h.channels]; rfl

/-- No handle changes. -/
theorem carries : Carries .refl p.toParts p'.toParts where
  node? id := by simp [h.node?]
  channel? id := by simp [h.channel?]

theorem fuses {n : Node} (hn : p.node? n.id = some n) : p'.fuses n = p.fuses n := by
  simpa using h.carries.fuses hn

theorem host (id : NodeId) : p'.host id = p.host id := h.carries.host id

theorem entries {cb : Callback} (hcb : p.node? cb.node.id = some cb.node) :
    p'.entries cb = p.entries cb := by
  simpa using h.carries.entries hcb

theorem reachable {id : NodeId} (hreach : p.Reachable id) : p'.Reachable id := by
  induction hreach with
  | sink hsink => exact .sink (h.sinks.mem_iff.mpr hsink)
  | input _ hn hc hch ih => exact ih.input ((h.node? _).trans hn) hc ((h.channel? _).trans hch)

theorem reachable_iff {id : NodeId} : p'.Reachable id ↔ p.Reachable id :=
  ⟨h.symm.reachable, h.reachable⟩

/-! ## Section 3: What the order of the walk leaves -/

theorem schedule : p'.schedule.Perm p.schedule := by
  refine (List.perm_ext_iff_of_nodup p'.nodup_schedule p.nodup_schedule).mpr fun cb => ?_
  rw [mem_schedule, mem_schedule, h.node?, h.reachable_iff]

theorem mem_entered {n : Node} : n ∈ p'.entered ↔ n ∈ p.entered := by
  rw [Plan.mem_entered, Plan.mem_entered, h.node?, h.reachable_iff]

/-- What is done is the same, in any order. -/
theorem journal : (p'.journal p'.schedule).Perm (p.journal p.schedule) := by
  have hentries : p'.journal p'.schedule = p'.schedule.flatMap p.entries :=
    List.flatMap_congr fun cb hcb => h.entries (p.mem_schedule.mp (h.schedule.subset hcb)).1
  rw [hentries]
  exact h.schedule.flatMap_right _

theorem fuses_entered {n : Node} (hn : n ∈ p.entered) : p'.fuses n = p.fuses n :=
  h.fuses (p.mem_entered.mp hn).1

theorem mem_ownNodes {n : Node} : n ∈ p'.ownNodes ↔ n ∈ p.ownNodes := by
  rw [Plan.mem_ownNodes, Plan.mem_ownNodes, h.mem_entered]
  exact and_congr_right fun hn => by rw [h.fuses_entered hn]

theorem mem_fusedNodes {n : Node} : n ∈ p'.fusedNodes ↔ n ∈ p.fusedNodes := by
  rw [Plan.mem_fusedNodes, Plan.mem_fusedNodes, h.mem_entered]
  exact and_congr_right fun hn => by rw [h.fuses_entered hn]

/-- A node has a fault exactly if it has one in another order of the sinks. -/
theorem faultless_iff {n : Node} (hn : p.node? n.id = some n) :
    (p'.enterFault? n = none ∧ p'.leaveFault? n = none) ↔
      (p.enterFault? n = none ∧ p.leaveFault? n = none) := by
  have henter := h.carries.enterFault? hn
  have hleave := h.carries.leaveFault? hn
  rw [Node.rename_refl] at henter hleave
  rw [henter, hleave, Option.map_eq_none_iff, Option.map_eq_none_iff]

theorem compile_ok_iff (c : Compiler) (job job' : JobId) :
    (∃ r, c.compile job p = .ok r) ↔ ∃ r', c.compile job' p' = .ok r' := by
  rw [Plan.compile_ok_iff, Plan.compile_ok_iff]
  refine and_congr ?_ ?_
  · refine forall_congr' fun n => ?_
    rw [h.mem_entered]
    exact forall_congr' fun hn => (h.faultless_iff (p.mem_entered.mp hn).1).symm
  · simp only [ne_eq, List.eq_nil_iff_forall_not_mem, h.mem_ownNodes]

/-- In a built plan the guests of a host are the same, in the same order. -/
theorem guests (htied : p.Tied) (hfault : p.schedule.findSome? p.callbackFault? = none)
    (hfault' : p'.schedule.findSome? p'.callbackFault? = none) {g : Node} (hg : g ∈ p.ownNodes) :
    p'.guests p'.hostSequence g.id = p.guests p.hostSequence g.id := by
  have htied' : p'.Tied := {
    node_id := h.nodes ▸ htied.node_id
    channel_id := h.channels ▸ htied.channel_id
    source_lt := h.nodes ▸ h.channels ▸ htied.source_lt
    target_lt := h.nodes ▸ h.channels ▸ htied.target_lt
    inputs := by simpa only [Parts.select, h.nodes, h.channels] using htied.inputs
    outgoing := by simpa only [Parts.select, h.nodes, h.channels] using htied.outgoing }
  have hlink : p'.Link = p.Link := by
    funext m n
    simp only [Link, h.channel?]
  have hchain' := hlink ▸ isChain_guests htied' hfault' (h.mem_ownNodes.mpr hg)
  -- Both are paths over the same links from the node of the host.
  refine eq_of_perm_of_isChain ?_ (isChain_guests htied hfault hg) hchain' (link_guests g.id)
  refine (List.perm_ext_iff_of_nodup (p'.nodup_hostSequence.filter _)
    (p.nodup_hostSequence.filter _)).mpr fun n => ?_
  rw [← Plan.guests, ← Plan.guests, mem_guests, mem_guests, h.mem_fusedNodes, h.host]

end

end Shuffles

/-! ## Section 4: Results by node -/

variable {r : Report}

/-- The vertex of a node is that of no other. -/
theorem Places.owner? (hr : p.Places r) {n : Node} (hn : n ∈ p.ownNodes) :
    r.owner? (p.vertexOf n.id) = some n.id := by
  have hplace := (hr.of_own hn).2
  have hlt : n.id.index < r.placements.size := by
    by_contra hle
    simp [Report.placement?, Array.getElem?_eq_none (Nat.not_lt.mp hle)] at hplace
  have hmem : n.id ∈ (List.range r.placements.size).map Handle.mk :=
    List.mem_map.mpr ⟨n.id.index, List.mem_range.mpr hlt, rfl⟩
  cases howner : r.owner? (p.vertexOf n.id) with
  | none => exact absurd (decide_eq_true hplace) (List.find?_eq_none.mp howner _ hmem)
  | some id =>
    -- What is found has the vertex too, and so it is the node.
    have hfound : r.placement? id = some (.vertex (p.vertexOf n.id)) := by
      rw [Report.owner?] at howner
      simpa using List.find?_some howner
    have hnode := hr id
    rw [hfound] at hnode
    obtain ⟨m, hm, -⟩ := Option.bind_eq_some_iff.mp hnode.symm
    obtain rfl := p.id_eq hm
    obtain ⟨hown, hid⟩ := (hr.vertex_iff hm _).mp hfound
    rw [vertexOf_inj hn hown hid]

/-- The host of a node that is reached has the vertex that runs the node. -/
theorem Places.owner?_host (hr : p.Places r) {n : Node} (hn : n ∈ p.entered) :
    r.owner? (p.vertexOf (p.host n.id)) = some (p.host n.id) := by
  obtain ⟨g, hg, hgid⟩ := exists_host_own hn
  rw [← hgid]
  exact hr.owner? hg

/-- Where a node is placed, by nodes. -/
theorem Places.seat? (hr : p.Places r) (id : NodeId) : r.seat? id = (p.node? id).bind fun n =>
    if n.isUnion then some .spliced
    else if n ∈ p.entered then
      some (if p.fuses n then .chained (some (p.host n.id)) (p.placeOf n).position else .vertex)
    else none := by
  rw [Report.seat?, hr id]
  cases hn : p.node? id with
  | none => rfl
  | some n =>
    simp only [Option.bind_some, placementOf]
    split
    · rfl
    · split
      · rename_i hentered
        have howner : r.owner? (p.placeOf n).host = some (p.host n.id) := hr.owner?_host hentered
        split <;> simp [howner]
      · rfl

/-- A vertex of the answer is that of a node. -/
theorem owner?_answer (lead : Node) {v : VertexId}
    (hv : ((p.answer policy job lead).graph.vertex? v).isSome = true) :
    ((p.answer policy job lead).report.owner? v).isSome = true := by
  obtain ⟨vertex, hvertex⟩ := Option.isSome_iff_exists.mp hv
  obtain ⟨n, hn, rfl, -⟩ := exists_of_vertex? lead hvertex
  rw [(places_answer lead).owner? hn]
  rfl

/-- What an entry connects, if it is for a wire. -/
def connectionOf? (p : Plan) : Entry → Option Connection
  | .wired n _ b => b.ship.wire.toOption.map fun (transport, pattern) =>
    { source := some (p.host b.source), target := some n.id, transport, pattern }
  | _ => none

/-- The edges of the answer connect what the entries do, up to order. -/
theorem connections_perm_entries (lead : Node) :
    ((p.answer policy job lead).graph.edges.map (p.answer policy job lead).report.connection).Perm
      ((p.journal p.schedule).filterMap p.connectionOf?) := by
  have hr : p.Places (p.answer policy job lead).report := places_answer lead
  refine ((edges_perm_entries lead).map _).trans (List.Perm.of_eq ?_)
  rw [List.map_filterMap]
  refine List.filterMap_congr fun e he => ?_
  cases e with
  | made n => rfl
  | described n i ch => rfl
  | hosted n ch => rfl
  | wired n i b =>
    obtain ⟨hn, c, hc, hb⟩ := wired_mem_journal he
    obtain ⟨m, hm, hid⟩ := branch_entered (p.mem_ownNodes.mp hn).1 hc hb
    simp only [edgeOf?, connectionOf?, Option.map_map]
    congr 1
    funext wire
    simp only [Function.comp_apply, Report.connection, ← hid, hr.owner?_host hm, hr.owner? hn]

/-! ## Section 5: Results for sinks in another order -/

namespace Shuffles

section
variable (h : Shuffles p p')
include h

/-- The slots of the inputs of a node are the same. -/
theorem inputs {n : Node} (hn : n ∈ p.entered) : ((p'.fullLayout policy).config n).inputs =
    ((p.fullLayout policy).config n).inputs := by
  have hnode := (p.mem_entered.mp hn).1
  have hn' := h.mem_entered.mpr hn
  cases hf : p.fuses n with
  | true =>
    obtain ⟨ch, producer, hfused⟩ := p.exists_fused hnode hf
    have hfused' : p'.Fused n ch producer := by simpa using h.carries.fused hfused
    rw [inputs_of_fused policy hn hfused, inputs_of_fused policy hn' hfused']
  | false =>
    have hown := p.mem_ownNodes.mpr ⟨hn, hf⟩
    apply SortedMap.ext_get?
    intro i
    rw [inputs_fullLayout policy hown, inputs_fullLayout policy (h.mem_ownNodes.mpr hown)]
    cases hc : n.inputs[i]? with
    | none => rfl
    | some c =>
      obtain ⟨ch, hch, -⟩ := p.exists_channel hnode (List.mem_of_getElem? hc)
      have hflat : p'.flat ch = p.flat ch := by simpa using h.carries.flat hch
      simp only [Option.bind_some, h.channel?, hch, Option.map_some, slotOf, hflat]

/-- The slots of the outputs of a node are the same, in any order. -/
theorem outputs {n : Node} (hn : n ∈ p.entered) : ((p'.fullLayout policy).config n).outputs.Perm
    ((p.fullLayout policy).config n).outputs := by
  have houtput : p'.outputOf? n = p.outputOf? n := by
    funext e
    cases e <;> simp only [outputOf?, h.fuses_entered hn]
  rw [outputs_fullLayout, outputs_fullLayout, houtput]
  exact h.journal.filterMap _

theorem connections : ((p'.journal p'.schedule).filterMap p'.connectionOf?).Perm
    ((p.journal p.schedule).filterMap p.connectionOf?) := by
  have hconnection : p'.connectionOf? = p.connectionOf? := by
    funext e
    cases e <;> simp only [connectionOf?, h.host]
  rw [hconnection]
  exact h.journal.filterMap _

/-- In a built plan every node has the same seat. -/
theorem seat (htied : p.Tied) (hfault : p.schedule.findSome? p.callbackFault? = none)
    (hfault' : p'.schedule.findSome? p'.callbackFault? = none) {r r' : Report} (hr : p.Places r)
    (hr' : p'.Places r') (id : NodeId) : r'.seat? id = r.seat? id := by
  rw [hr.seat?, hr'.seat?, h.node?]
  refine Option.bind_congr fun n hn => ?_
  obtain rfl := p.id_eq hn
  simp only [h.mem_entered, h.fuses hn, h.host]
  -- What is left to compare is the position among the guests of the host.
  split
  · rfl
  · split
    · rename_i hentered
      obtain ⟨g, hg, hgid⟩ := exists_host_own hentered
      have hguests := h.guests htied hfault hfault' hg
      simp only [placeOf, placeIn, h.host, ← hgid, hguests]
    · rfl

/-- Every node has the same slots. -/
theorem config (policy : SpillPolicy) (job job' : JobId) (lead lead' : Node) (id : NodeId) :
    Option.Rel (fun t t' => t'.inputs = t.inputs ∧ t'.outputs.Perm t.outputs)
      ((p.answer policy job lead).config? id) ((p'.answer policy job' lead').config? id) := by
  by_cases hid : ∃ n ∈ p.entered, n.id = id
  · obtain ⟨n, hn, rfl⟩ := hid
    obtain ⟨t, ht, hsettings⟩ := config?_answer policy job lead hn
    obtain ⟨t', ht', hsettings'⟩ := config?_answer policy job' lead' (h.mem_entered.mpr hn)
    rw [ht, ht', Option.rel_some_some, hsettings, hsettings']
    exact ⟨h.inputs hn, h.outputs hn⟩
  · have hnone : ∀ n ∈ p.entered, n.id ≠ id := fun n hn heq => hid ⟨n, hn, heq⟩
    rw [config?_answer_none lead hnone,
      config?_answer_none lead' fun n hn => hnone n (h.mem_entered.mp hn)]
    exact .none

/-- The nodes that lead have the same parallelism. -/
theorem parallelism {lead lead' : Node} (hlead : leading p.ownNodes = some lead)
    (hlead' : leading p'.ownNodes = some lead') : lead'.parallelism = lead.parallelism := by
  have hmem := h.mem_ownNodes.mpr (leading_mem hlead)
  have hmem' := h.mem_ownNodes.mp (leading_mem hlead')
  exact UInt32.le_antisymm (le_of_leading hlead hmem') (le_of_leading hlead' hmem)

/-- In a built plan the results are the same up to numbering. -/
theorem renumbered (htied : p.Tied) {c : Compiler} {job job' : JobId} {r r' : Compiler.Result}
    (hok : c.compile job p = .ok r) (hok' : c.compile job' p' = .ok r') :
    Compiler.Renumbered r r' := by
  obtain ⟨lead, hfault, hlead, rfl⟩ := answer_of_ok hok
  obtain ⟨lead', hfault', hlead', rfl⟩ := answer_of_ok hok'
  refine {
    owned := fun v => ⟨owner?_answer lead, owner?_answer lead'⟩
    seat := h.seat htied hfault hfault' (places_answer lead) (places_answer lead')
    edges := ?_
    config := h.config c.policy job job' lead lead'
    anchor := ⟨_, _, vertex?_answer lead (leading_mem hlead),
      vertex?_answer lead' (leading_mem hlead'), ?_⟩ }
  · exact (connections_perm_entries lead').trans
      (h.connections.trans (connections_perm_entries lead).symm)
  · rw [parallelism_sharedVertex, parallelism_sharedVertex]
    exact h.parallelism hlead hlead'

end

end Shuffles

/-- The order of the sinks does not matter, up to numbering. The parts of a built plan with the sinks
in another order make a plan, which compiles exactly if the first one does; and then both results
place the nodes alike, connect them alike and configure them alike. -/
theorem compile_sinks_perm {jobName : String} {config : Configuration}
    {instanceType : Option String} {calls : List Builder.Call}
    (hbuild : ((Builder.new jobName config instanceType).after calls).build = .ok p)
    {sinks : List NodeId} (hsinks : sinks.Perm p.sinks) :
    ∃ p', ofParts { p.toParts with sinks } = .ok p' ∧ ∀ (c : Compiler) (job job' : JobId),
      ((∃ r, c.compile job p = .ok r) ↔ ∃ r', c.compile job' p' = .ok r') ∧
      ∀ r r', c.compile job p = .ok r → c.compile job' p' = .ok r' →
        Compiler.Renumbered r r' := by
  have htied := tied_of_build (tied_after jobName config instanceType calls) hbuild
  have hcarries : Carries .refl p.toParts { p.toParts with sinks } := {
    node? := fun id => by simp [Parts.node?]
    channel? := fun id => by simp [Parts.channel?] }
  obtain ⟨p', hok, hparts⟩ := hcarries.exists_plan fun s hs => ⟨s, hsinks.subset hs, rfl⟩
  have hshuffles : Shuffles p p' := {
    nodes := by rw [hparts]
    channels := by rw [hparts]
    sinks := by rw [hparts]; exact hsinks }
  refine ⟨p', hok, fun c job job' => ⟨hshuffles.compile_ok_iff c job job', fun r r' hr hr' => ?_⟩⟩
  exact hshuffles.renumbered htied hr hr'

/-! ## Section 6: A plan with two sinks -/

/-- Lines are read, trimmed and written twice. -/
def copyingCalls : List Builder.Call :=
  let forward : Shipment := { ship := .forward, serializer := ⟨"Line", .empty⟩ }
  [.add { name := "read", kind := .source ⟨"Line", .empty⟩ },
    .add { name := "trim", kind := .singleInput .map none },
    .add { name := "write", kind := .sink }, .add { name := "archive", kind := .sink },
    .connect ⟨0⟩ ⟨1⟩ forward, .connect ⟨1⟩ ⟨2⟩ forward, .connect ⟨1⟩ ⟨3⟩ forward]

/-- The parts that the calls make, with the sinks. -/
def copyingParts : Parts :=
  { ((Builder.new "copying").after copyingCalls).parts with sinks := [⟨2⟩, ⟨3⟩] }

theorem copying_consistent : copyingParts.Consistent :=
  copyingParts.inconsistency?_eq_none_iff.mp (by decide)

theorem copying_listing : copyingParts.listing = .ok [⟨3⟩, ⟨2⟩, ⟨1⟩, ⟨0⟩] := by cbv

/-- The plan of these parts. -/
def copying : Plan :=
  { copyingParts with
    consistent := copying_consistent
    acyclic := Parts.acyclic_of_listing copying_consistent copying_listing }

theorem copying_built : ((Builder.new "copying").after copyingCalls).build = .ok copying :=
  copying.ofParts_toParts copying_listing

theorem copying_compiles (c : Compiler) (job : JobId) : ∃ r, c.compile job copying = .ok r := by
  have hfault : copying.schedule.findSome? copying.callbackFault? = none := by cbv
  have hsink : copying.nodes[2] ∈ copying.ownNodes :=
    copying.sink_mem_ownNodes rfl rfl (List.mem_cons_self ..)
  exact compiles_of_faultless c job hfault hsink

/-- It does not matter whether the lines are written or archived first. -/
theorem copying_renumbered : ∃ p' r r', ofParts { copying.toParts with sinks := [⟨3⟩, ⟨2⟩] } = .ok p' ∧
    Compiler.standard.compile .zero copying = .ok r ∧ Compiler.standard.compile .zero p' = .ok r' ∧
    Compiler.Renumbered r r' := by
  have hsinks : [⟨3⟩, ⟨2⟩].Perm copying.sinks := .swap ..
  obtain ⟨r, hr⟩ := copying_compiles .standard .zero
  obtain ⟨p', hok, hcompile⟩ := compile_sinks_perm copying_built hsinks
  obtain ⟨hiff, hsame⟩ := hcompile .standard .zero .zero
  obtain ⟨r', hr'⟩ := hiff.mp ⟨r, hr⟩
  exact ⟨p', r, r', hok, hr, hr', hsame r r' hr hr'⟩

end Plan

end Dataflow
