import Dataflow.Proofs.Paths

/-! # Threads

    A vertex and the nodes fused into it run in one thread. In a built plan the
    records go from the node of the vertex through the fused nodes in their
    order: each hands its output to the next and to nothing else. So only the
    last one has wires, and they are all the wires of the vertex.

    Main statement:
    - `thread_of_vertex`: what a vertex with fused tasks is, in a result for a
      built plan
-/

namespace Dataflow

namespace Plan

open Lowering

/-! ## Section 1: Threads -/

/-- The output slot for a branch. -/
def outputFor (b : Channel) : OutputSlot := { ship := b.ship, comparator := b.shipComparator }

/-- A list of branches with the vertices that they enter are branches from a node that the plan asks
for. -/
def Feeds (p : Plan) (r : Report) (m : Node) (fed : List (VertexId × Channel)) : Prop :=
  ∀ f ∈ fed, f.2.source = m.id ∧ ∃ n ∈ p.nodes, r.placement? n.id = some (.vertex f.1) ∧
    ∃ c ∈ n.inputs, f.2 ∈ p.branchesOf c

/-- A vertex runs a node and, behind it, a path of others. -/
structure Thread (p : Plan) (r : Compiler.Result) (host : VertexId) (v : Vertex) (g : Node)
    (links : List Node) : Prop where
  /-- The vertex is that of a node. -/
  own : g ∈ p.nodes ∧ r.report.placement? g.id = some (.vertex host)
  /-- There is a fused task for each node of the path. -/
  length : links.length = v.config.fused.length
  /-- The nodes of the path are fused into the vertex in their order. -/
  placed : ∀ j m, links[j]? = some m →
    m ∈ p.nodes ∧ r.report.placement? m.id = some (.chained ⟨host, j⟩)
  /-- The only outgoing channel of each node is the only input of the next one. -/
  path : (g :: links).IsChain p.Link
  /-- The node of the vertex has one output, which enters the path. -/
  entry : v.config.outputs = [{ ship := .forward }]
  /-- Nodes within the path have no outputs. -/
  inner : ∀ j t, v.config.fused[j]? = some t → j + 1 < v.config.fused.length → t.config.outputs = []
  /-- The outputs of the last node and the wires of the vertex are for the same branches. -/
  exit : ∃ m t fed, links.getLast? = some m ∧ v.config.fused.getLast? = some t ∧
    p.Feeds r.report m fed ∧ t.config.outputs = fed.map (fun f => outputFor f.2) ∧
    v.edges.map some = fed.map (fun f => r.report.edge? f.1 f.2) ∧
    v.wires.length = t.config.outputs.length
  /-- No other branch leaves from the vertex. -/
  only : ∀ n ∈ p.nodes, ∀ t, r.report.placement? n.id = some (.vertex t) →
    ∀ c ∈ n.inputs, ∀ b ∈ p.branchesOf c,
      (r.report.placement? b.source).bind Placement.vertex? = some host →
        ∃ m, links.getLast? = some m ∧ b.source = m.id

variable {p : Plan} {policy : SpillPolicy} {job : JobId} {r : Report}

/-! ## Section 2: Outputs of a node -/

/-- The output slot that an entry adds to a node. -/
def outputOf? (p : Plan) (n : Node) : Entry → Option OutputSlot
  | .wired _ _ b => if b.source = n.id then some (outputFor b) else none
  | .hosted m ch =>
    if m.id ≠ n.id ∧ ch.source = n.id ∧ p.fuses n = false then some { ship := .forward } else none
  | .made _ | .described .. => none

theorem configStep_outputs (n : Node) (t : TaskConfig) (e : Entry) :
    (p.configStep policy n t e).outputs = t.outputs ++ (p.outputOf? n e).toList := by
  cases e with
  | made m => simp [configStep, outputOf?]
  | wired m i b =>
    simp only [configStep, outputOf?]
    by_cases hm : m.id = n.id <;> by_cases hb : b.source = n.id <;>
      simp [hm, hb, TaskConfig.addWire, TaskConfig.updateInput, TaskConfig.addOutputFor, outputFor]
  | described m i ch =>
    simp only [configStep, outputOf?]
    split <;> simp [TaskConfig.describeInput, TaskConfig.updateInput]
  | hosted m ch =>
    simp only [configStep, outputOf?]
    by_cases hm : m.id = n.id
    · simp [hm, TaskConfig.updateInput]
    · by_cases hch : ch.source = n.id ∧ p.fuses n = false <;> simp [hm, hch, TaskConfig.addOutput]

/-- The outputs of a node are those that the entries add, in order. -/
theorem configAfter_outputs (j : List Entry) (n : Node) :
    (p.configAfter policy j n).outputs = j.filterMap (p.outputOf? n) := by
  induction j using List.reverseRecOn with
  | nil =>
    simp only [configAfter, List.foldl_nil, baseConfig]
    split <;> rfl
  | append_singleton j e ih =>
    rw [configAfter_concat, configStep_outputs, ih, List.filterMap_append, List.filterMap_cons]
    cases p.outputOf? n e <;> rfl

theorem outputs_fullLayout (n : Node) : ((p.fullLayout policy).config n).outputs =
    (p.journal p.schedule).filterMap (p.outputOf? n) := configAfter_outputs _ n

/-! ## Section 3: What a link rules out -/

/-- A branch is the channel itself or ends at a union. -/
theorem eq_or_target_union {c : ChannelId} {ch : Channel} (hch : p.channel? c = some ch)
    {b : Channel} (hb : b ∈ p.flat ch) :
    b = ch ∨ ∃ u, p.node? b.target = some u ∧ u.isUnion = true := by
  induction c, ch, hch using p.channel_induction with
  | own c ch n hch hn hu =>
    rw [p.flat_of_not_union hn hu, List.mem_singleton] at hb
    exact Or.inl hb
  | union c ch n hch hn hu ih =>
    rw [p.flat_of_union hn hu, List.mem_flatMap] at hb
    obtain ⟨d, hd, hb⟩ := hb
    obtain ⟨dh, hdh, htarget, hb⟩ := p.exists_channel_of_branch hn hd hb
    -- A branch of the union's input either is this input or ends at a union below.
    rcases ih d hd dh hdh hb with rfl | hunion
    · exact Or.inr ⟨n, by rw [htarget, hn], hu⟩
    · exact Or.inr hunion

/-- A node that is linked to a fused one feeds no vertex. -/
theorem Link.source_ne {m n : Node} (h : p.Link m n) (hfused : n ∈ p.fusedNodes) {t : Node}
    (ht : t ∈ p.ownNodes) {c : ChannelId} (hc : c ∈ t.inputs) {b : Channel}
    (hb : b ∈ p.branchesOf c) : b.source ≠ m.id := by
  intro hsource
  obtain ⟨hnode, hu, -⟩ := p.mem_entered.mp (p.mem_fusedNodes.mp hfused).1
  have htnode := p.node?_of_own ht
  obtain ⟨ch, hch, hchtarget, hb⟩ := p.exists_channel_of_branch htnode hc hb
  obtain ⟨⟨d, hd⟩, -⟩ := p.mem_flat hch hb
  -- The branch is the one channel from the node, so it ends at the fused node.
  have htarget := (h.of_source hd hsource).2
  rcases eq_or_target_union hch hb with rfl | ⟨u, hunode, huu⟩
  · exact p.id_ne_of_fused_of_own hfused ht (htarget.symm.trans hchtarget)
  · rw [htarget, hnode] at hunode
    rw [Option.some.inj hunode, huu] at hu
    simp at hu

/-- A fused node is fused over the channel from the node that is linked to it. -/
theorem Link.source_eq {m n : Node} (h : p.Link m n) {ch : Channel} {producer : Node}
    (hfused : p.Fused n ch producer) : ch.source = m.id := by
  obtain ⟨c, dh, -, hinputs, hdh, hsource, -⟩ := h
  obtain ⟨d, rest, hdinputs, hch⟩ := hfused.input
  obtain ⟨rfl, -⟩ : d = c ∧ rest = [] := by simpa [hdinputs] using hinputs
  obtain rfl : dh = ch := by simpa [hdh] using hch
  exact hsource

/-- A node with a vertex that is linked to a fused node has one output, for the fused node. -/
theorem Link.outputs_own {g n : Node} (h : p.Link g n) (hg : g ∈ p.ownNodes)
    (hn : n ∈ p.fusedNodes) :
    ((p.fullLayout policy).config g).outputs = [{ ship := .forward }] := by
  obtain ⟨hentered, hf⟩ := p.mem_fusedNodes.mp hn
  obtain ⟨hnode, hu, hreach⟩ := p.mem_entered.mp hentered
  have hgf := (p.mem_ownNodes.mp hg).2
  have hleave : .leave n ∈ p.schedule := p.mem_schedule.mpr ⟨hnode, hu, hreach⟩
  rw [outputs_fullLayout, journal, List.filterMap_flatMap,
    flatMap_of_unique p.nodup_schedule hleave]
  · -- The leaving of the fused node adds the output.
    obtain ⟨ch, producer, hfused⟩ := p.exists_fused hnode hf
    have hsource : ch.source = g.id := h.source_eq hfused
    have hne := p.id_ne_of_fused_of_own hn hg
    simp [entries_of_fused hfused, outputOf?, hne, hsource, hgf]
  · -- Nothing else does: no wire leaves from the node, and no other node is fused with it.
    intro cb hcb hne
    refine List.filterMap_eq_nil_iff.mpr fun e he => ?_
    have hcbnode := (p.mem_schedule.mp hcb).1
    cases p.of_mem_entries hcbnode he with
    | made m => rfl
    | described hf hi hch => rfl
    | wired hf hi hch hb =>
      obtain ⟨hm, d, hd, hb⟩ := wired_mem_journal (List.mem_flatMap.mpr ⟨_, hcb, he⟩)
      exact if_neg (h.source_ne hn hm hd hb)
    | @hosted m ch producer hfused =>
      refine if_neg fun hhosted => hne ?_
      obtain ⟨d, rest, -, hch⟩ := hfused.input
      have htarget := (h.of_source hch hhosted.2.1).2
      have hid := (hfused.target_eq hcbnode).symm.trans htarget
      exact congrArg Callback.leave (p.node?_inj hcbnode hnode hid)

/-- A fused node that is linked to another fused node has no outputs. -/
theorem Link.outputs_fused {m n : Node} (h : p.Link m n) (hm : m ∈ p.fusedNodes)
    (hn : n ∈ p.fusedNodes) : ((p.fullLayout policy).config m).outputs = [] := by
  rw [outputs_fullLayout]
  refine List.filterMap_eq_nil_iff.mpr fun e he => ?_
  cases e with
  | made n' => rfl
  | described n' i ch => rfl
  | wired n' i b =>
    obtain ⟨hn', c, hc, hb⟩ := wired_mem_journal he
    exact if_neg (h.source_ne hn hn' hc hb)
  | hosted n' ch => exact if_neg fun hhosted => by simp [(p.mem_fusedNodes.mp hm).2] at hhosted

/-! ## Section 4: The last node -/

/-- The branch of an entry and the vertex that it enters, if the branch is from a node. -/
def fedOf? (p : Plan) (m : Node) : Entry → Option (VertexId × Channel)
  | .wired n _ b => if b.source = m.id then some (p.vertexOf n.id, b) else none
  | .made _ | .described .. | .hosted .. => none

theorem feeds_journal (hr : p.Places r) (m : Node) :
    p.Feeds r m ((p.journal p.schedule).filterMap (p.fedOf? m)) := by
  intro f hf
  obtain ⟨e, he, hfed⟩ := List.mem_filterMap.mp hf
  cases e with
  | made n => simp [fedOf?] at hfed
  | described n i ch => simp [fedOf?] at hfed
  | hosted n ch => simp [fedOf?] at hfed
  | wired n i b =>
    obtain ⟨hn, c, hc, hb⟩ := wired_mem_journal he
    obtain ⟨hmem, hplace⟩ := hr.of_own hn
    simp only [fedOf?] at hfed
    split at hfed
    · rename_i hsource
      obtain rfl := Option.some.inj hfed
      exact ⟨hsource, n, hmem, hplace, c, hc, hb⟩
    · simp at hfed

/-- The outputs of a fused node are for the branches from it. -/
theorem outputs_fused (policy : SpillPolicy) {m : Node} (hm : m ∈ p.fusedNodes) :
    ((p.fullLayout policy).config m).outputs =
      ((p.journal p.schedule).filterMap (p.fedOf? m)).map fun f => outputFor f.2 := by
  rw [outputs_fullLayout, List.map_filterMap]
  refine List.filterMap_congr fun e _ => ?_
  cases e with
  | made n => rfl
  | described n i ch => rfl
  | hosted n ch => simp [outputOf?, fedOf?, (p.mem_fusedNodes.mp hm).2]
  | wired n i b =>
    simp only [outputOf?, fedOf?]
    split <;> rfl

/-- A node that a vertex runs is the node of the vertex or one of its guests. -/
theorem mem_thread {g n : Node} (hg : g ∈ p.ownNodes) (hn : n ∈ p.entered)
    (hhost : p.host n.id = g.id) : n ∈ g :: p.guests p.hostSequence g.id := by
  cases hf : p.fuses n with
  | false =>
    rw [p.host_of_not_fuses (p.mem_entered.mp hn).1 hf] at hhost
    rw [p.eq_of_entered hn (p.mem_ownNodes.mp hg).1 hhost]
    exact List.mem_cons_self ..
  | true => exact List.mem_cons_of_mem _ (mem_guests.mpr ⟨p.mem_fusedNodes.mpr ⟨hn, hf⟩, hhost⟩)

/-- A branch that leaves from a vertex with guests is from the last of them. -/
theorem source_eq_last {g m : Node} (hg : g ∈ p.ownNodes)
    (hchain : (g :: p.guests p.hostSequence g.id).IsChain p.Link)
    (hlast : (p.guests p.hostSequence g.id).getLast? = some m) {n : Node} (hn : n ∈ p.ownNodes)
    {c : ChannelId} (hc : c ∈ n.inputs) {b : Channel} (hb : b ∈ p.branchesOf c) :
    p.host b.source = g.id ↔ b.source = m.id := by
  have hguest := (mem_guests.mp (List.mem_of_getLast? hlast)).2
  refine ⟨fun hhost => ?_, fun hsource => hsource ▸ hguest⟩
  obtain ⟨s, hs, hsid⟩ := branch_entered (p.mem_ownNodes.mp hn).1 hc hb
  -- A node of the thread that is not the last one is linked to the next, and so feeds no vertex.
  rcases last_or_next hchain (mem_thread hg hs (hsid ▸ hhost)) with hend | ⟨z, hz, hlink⟩
  · have hend' : (p.guests p.hostSequence g.id).getLast? = some s := by
      cases hguests : p.guests p.hostSequence g.id with
      | nil => simp [hguests] at hlast
      | cons z rest => rw [hguests, List.getLast?_cons_cons] at hend; exact hend
    rw [← hsid, Option.some.inj (hend'.symm.trans hlast)]
  · exact absurd hsid.symm (hlink.source_ne (mem_guests.mp hz).1 hn hc hb)

theorem edges_sharedVertex (lead n : Node) :
    (p.sharedVertex policy lead n).edges = (p.fullVertex policy n).edges := by
  simp only [sharedVertex]
  split <;> rfl

/-- The edges of a vertex with guests are for the branches from the last of them. -/
theorem edges_thread (policy : SpillPolicy)
    (hfault : p.schedule.findSome? p.callbackFault? = none) (hr : p.Places r) (lead : Node)
    {g m : Node} (hg : g ∈ p.ownNodes)
    (hchain : (g :: p.guests p.hostSequence g.id).IsChain p.Link)
    (hlast : (p.guests p.hostSequence g.id).getLast? = some m) :
    (p.sharedVertex policy lead g).edges.map some =
      ((p.journal p.schedule).filterMap (p.fedOf? m)).map fun f => r.edge? f.1 f.2 := by
  rw [edges_sharedVertex, edges_fullVertex, List.map_filterMap, List.map_filterMap]
  refine List.filterMap_congr fun e he => ?_
  cases e with
  | made n => simp [edgeOf?, fedOf?]
  | described n i ch => simp [edgeOf?, fedOf?]
  | hosted n ch => simp [edgeOf?, fedOf?]
  | wired n i b =>
    obtain ⟨hn, c, hc, hb⟩ := wired_mem_journal he
    simp only [origin, fedOf?, source_eq_last hg hchain hlast hn hc hb]
    by_cases hsource : b.source = m.id
    · obtain ⟨w, hw⟩ := exists_wire hfault hn hc hb
      obtain ⟨s, hs, hsid⟩ := branch_entered (p.mem_ownNodes.mp hn).1 hc hb
      simp [hsource, edgeOf?, hr.edge? hs hsid, hw, Except.toOption]
    · simp [hsource]

/-! ## Section 5: The thread of a vertex -/

section
variable (hfault : p.schedule.findSome? p.callbackFault? = none) (lead : Node) {g : Node}
  (hg : g ∈ p.ownNodes) (hchain : (g :: p.guests p.hostSequence g.id).IsChain p.Link)
include hg hchain

/-- The node of a vertex with guests has one output. -/
theorem outputs_own (hne : p.guests p.hostSequence g.id ≠ []) :
    (p.sharedVertex policy lead g).config.outputs = [{ ship := .forward }] := by
  obtain ⟨n, rest, hguests⟩ := List.exists_cons_of_ne_nil hne
  have hn : n ∈ p.guests p.hostSequence g.id := by simp [hguests]
  rw [hguests] at hchain
  rw [config_sharedVertex]
  exact (List.isChain_cons_cons.mp hchain).1.outputs_own hg (mem_guests.mp hn).1

omit hg in
/-- A guest before the last one has no outputs. -/
theorem outputs_inner {j : Nat} {t : FusedTask}
    (ht : (p.sharedVertex policy lead g).config.fused[j]? = some t)
    (hj : j + 1 < (p.sharedVertex policy lead g).config.fused.length) : t.config.outputs = [] := by
  rw [fused_sharedVertex, List.length_map] at hj
  rw [fused_sharedVertex, List.getElem?_map] at ht
  obtain ⟨n, hn, rfl⟩ := Option.map_eq_some_iff.mp ht
  obtain ⟨-, rfl⟩ := List.getElem?_eq_some_iff.mp hn
  have hlink := List.isChain_iff_getElem.mp hchain.tail j hj
  have hguest : ∀ {i : Nat} (hi : i < (p.guests p.hostSequence g.id).length),
      (p.guests p.hostSequence g.id)[i] ∈ p.fusedNodes := fun hi =>
    (mem_guests.mp (List.getElem_mem hi)).1
  exact hlink.outputs_fused (hguest _) (hguest _)

include hfault in
/-- The outputs of the last guest and the wires of the vertex are for the same branches. -/
theorem exit_of_last {m : Node} (hlast : (p.guests p.hostSequence g.id).getLast? = some m) :
    ∃ t fed, (p.sharedVertex policy lead g).config.fused.getLast? = some t ∧
      p.Feeds (p.answer policy job lead).report m fed ∧
      t.config.outputs = fed.map (fun f => outputFor f.2) ∧
      (p.sharedVertex policy lead g).edges.map some =
        fed.map (fun f => (p.answer policy job lead).report.edge? f.1 f.2) ∧
      (p.sharedVertex policy lead g).wires.length = t.config.outputs.length := by
  have hr : p.Places (p.answer policy job lead).report := places_answer lead
  have hm := (mem_guests.mp (List.mem_of_getLast? hlast)).1
  have houtputs := outputs_fused policy hm
  have hedges := edges_thread policy hfault hr lead hg hchain hlast
  refine ⟨taskIn (p.fullLayout policy) m, _, ?_, feeds_journal hr m, houtputs, hedges, ?_⟩
  · rw [fused_sharedVertex, List.getLast?_map, hlast]
    rfl
  · -- The wires are as many as the edges, and these as many as the outputs.
    have hwires := congrArg List.length hedges
    rw [List.length_map, List.length_map, Vertex.edges, List.length_map] at hwires
    have hslots := congrArg List.length houtputs
    rw [List.length_map] at hslots
    exact hwires.trans hslots.symm

/-- A branch that leaves from the vertex is from the last guest. -/
theorem only_last {m : Node} (hlast : (p.guests p.hostSequence g.id).getLast? = some m)
    {r : Report} (hr : p.Places r) {n : Node} (hn : n ∈ p.ownNodes) {c : ChannelId}
    (hc : c ∈ n.inputs) {b : Channel} (hb : b ∈ p.branchesOf c)
    (hhost : (r.placement? b.source).bind Placement.vertex? = some (p.vertexOf g.id)) :
    b.source = m.id := by
  obtain ⟨s, hs, hsid⟩ := branch_entered (p.mem_ownNodes.mp hn).1 hc hb
  obtain ⟨k, hk, hkid⟩ := exists_host_own hs
  rw [← hsid, hr.vertex? hs, ← hkid] at hhost
  obtain rfl := vertexOf_inj hk hg (Option.some.inj hhost)
  refine (source_eq_last hg hchain hlast hn hc hb).mp ?_
  rw [← hsid, hkid]

end

/-- In a result for a built plan every vertex with fused tasks is a thread: the nodes of the tasks
form one path from the node of the vertex, and only the last of them has wires. -/
theorem thread_of_vertex {jobName : String} {config : Configuration} {instanceType : Option String}
    {calls : List Builder.Call}
    (hbuild : ((Builder.new jobName config instanceType).after calls).build = .ok p)
    {c : Compiler} {r : Compiler.Result} (h : c.compile job p = .ok r) {host : VertexId} {v : Vertex}
    (hv : r.graph.vertex? host = some v) (hfused : v.config.fused ≠ []) :
    ∃ g links, p.Thread r host v g links := by
  have htied := tied_of_build (tied_after jobName config instanceType calls) hbuild
  obtain ⟨lead, hfault, -, rfl⟩ := answer_of_ok h
  have hr : p.Places (p.answer c.policy job lead).report := places_answer lead
  obtain ⟨g, hg, rfl, rfl⟩ := exists_of_vertex? lead hv
  have hne : p.guests p.hostSequence g.id ≠ [] := by
    rw [fused_sharedVertex] at hfused
    exact fun hnil => hfused (by rw [hnil]; rfl)
  obtain ⟨m, hlast⟩ : ∃ m, (p.guests p.hostSequence g.id).getLast? = some m :=
    Option.isSome_iff_exists.mp (by simpa using hne)
  -- The guests are linked one after another, and all that is left to say follows from this.
  have hchain := isChain_guests htied hfault hg
  refine ⟨g, p.guests p.hostSequence g.id, {
    own := hr.of_own hg
    length := by rw [fused_sharedVertex, List.length_map]
    placed := fun j n hn => ?_
    path := hchain
    entry := outputs_own lead hg hchain hne
    inner := fun j t ht hj => outputs_inner lead hchain ht hj
    exit := ⟨m, (exit_of_last hfault lead hg hchain hlast).imp fun _ ⟨fed, h⟩ => ⟨fed, hlast, h⟩⟩
    only := fun n hn t ht d hd b hb hhost => ?_ }⟩
  · obtain ⟨hn, hplace⟩ := placeOf_eq hn
    exact hplace ▸ hr.of_fused hn
  · have hown := ((hr.vertex_iff (p.node?_of_mem hn) t).mp ht).1
    exact ⟨m, hlast, only_last hg hchain hlast hr hown hd hb hhost⟩

/-! ## Section 6: A plan with a thread -/

/-- Lines are read, split, trimmed and written. -/
def pipelineCalls : List Builder.Call :=
  let forward : Shipment := { ship := .forward, serializer := ⟨"Line", .empty⟩ }
  [.add { name := "read", kind := .source ⟨"Line", .empty⟩ },
    .add { name := "split", kind := .singleInput .flatMap none },
    .add { name := "trim", kind := .singleInput .map none },
    .add { name := "write", kind := .sink },
    .connect ⟨0⟩ ⟨1⟩ forward, .connect ⟨1⟩ ⟨2⟩ forward, .connect ⟨2⟩ ⟨3⟩ forward]

/-- The parts that the calls make, with the sink. -/
def pipelineParts : Parts :=
  { ((Builder.new "pipeline").after pipelineCalls).parts with sinks := [⟨3⟩] }

theorem pipeline_consistent : pipelineParts.Consistent :=
  pipelineParts.inconsistency?_eq_none_iff.mp (by decide)

theorem pipeline_listing : pipelineParts.listing = .ok [⟨3⟩, ⟨2⟩, ⟨1⟩, ⟨0⟩] := by cbv

/-- The plan of these parts. -/
def pipeline : Plan :=
  { pipelineParts with
    consistent := pipeline_consistent
    acyclic := Parts.acyclic_of_listing pipeline_consistent pipeline_listing }

theorem pipeline_built : ((Builder.new "pipeline").after pipelineCalls).build = .ok pipeline :=
  pipeline.ofParts_toParts pipeline_listing

theorem pipeline_compiles (c : Compiler) (job : JobId) : ∃ r, c.compile job pipeline = .ok r := by
  have hfault : pipeline.schedule.findSome? pipeline.callbackFault? = none := by cbv
  have hsink : pipeline.nodes[3] ∈ pipeline.ownNodes :=
    pipeline.sink_mem_ownNodes rfl rfl (List.mem_singleton_self _)
  exact compiles_of_faultless c job hfault hsink

/-- The vertex that reads runs the splitting and the trimming too. -/
theorem pipeline_thread : ∃ r host v g links, Compiler.standard.compile .zero pipeline = .ok r ∧
    v.config.fused ≠ [] ∧ pipeline.Thread r host v g links := by
  obtain ⟨r, hr⟩ := pipeline_compiles .standard .zero
  obtain ⟨lead, -, -, rfl⟩ := answer_of_ok hr
  have hsplit : pipeline.nodes[1] ∈ pipeline.fusedNodes := by
    have hfused : pipeline.Fused pipeline.nodes[1] pipeline.channels[0] pipeline.nodes[0] :=
      ⟨⟨_, _, _, rfl, rfl⟩, ⟨⟨0⟩, [], rfl, rfl⟩, rfl, rfl, rfl, rfl, rfl, rfl, rfl⟩
    have hwrite : pipeline.Reachable ⟨3⟩ := .sink (List.mem_singleton_self _)
    have htrim : pipeline.Reachable ⟨2⟩ :=
      hwrite.of_input (n := pipeline.nodes[3]) (c := ⟨2⟩) rfl (List.mem_singleton_self _) rfl rfl
    have hreach : pipeline.Reachable ⟨1⟩ :=
      htrim.of_input (n := pipeline.nodes[2]) (c := ⟨1⟩) rfl (List.mem_singleton_self _) rfl rfl
    exact hfused.mem_fusedNodes rfl hreach
  obtain ⟨v, hv, htask⟩ := task_answer lead hsplit
  have hfused : v.config.fused ≠ [] := List.ne_nil_of_mem (List.mem_of_getElem? htask)
  obtain ⟨g, links, hthread⟩ := thread_of_vertex pipeline_built hr hv hfused
  exact ⟨_, _, v, g, links, hr, hfused, hthread⟩

end Plan

end Dataflow
