import Dataflow.Plan.Builder
import Dataflow.Proofs.Hosting
import Dataflow.Proofs.Lower

/-! # The answer of a compilation

    What a compilation answers, as a function of the plan: the first fault of a
    callback, or that there is no vertex at all, or the graph and the report
    that are read off the schedule. Nothing fails after the walk.

    Main statements:
    - `compile_eq`: what a compilation answers
    - `compile_ok_iff`: when it succeeds
-/

namespace Dataflow

namespace Plan

open Lowering

variable (p : Plan)

/-! ## Section 1: The answer of a compilation -/

/-- The layout when all callbacks are done. -/
def fullLayout (policy : SpillPolicy) : Layout := p.layoutAfter policy (p.journal p.schedule)

/-- The place of a fused node. -/
def placeOf (n : Node) : Place := p.placeIn p.hostSequence n

/-- The placement of a node. -/
def placementOf (n : Node) : Option Placement :=
  if n.isUnion then some .spliced
  else if n ∈ p.entered then
    some (if p.fuses n then .chained (p.placeOf n) else .vertex (p.vertexOf n.id))
  else none

/-- The vertex of a node with the tasks of its guests. -/
def fullVertex (policy : SpillPolicy) (n : Node) : Vertex :=
  p.hostIn (p.fullLayout policy) p.hostSequence n

/-- The graph of a plan before instances are shared. -/
def fullGraph (policy : SpillPolicy) (job : JobId) : JobGraph where
  id := job
  name := p.jobName
  config := p.config
  vertices := (p.ownNodes.map (p.fullVertex policy)).toArray

/-- The vertex of a node that shares the instances of the first node of the greatest parallelism. -/
def sharedVertex (policy : SpillPolicy) (lead n : Node) : Vertex :=
  let v := p.fullVertex policy n
  if v.id = p.vertexOf lead.id then { v with instanceType := p.instanceType }
  else { v with sharesWith := p.vertexOf lead.id }

/-- The answer for a plan whose first node of the greatest parallelism is given. -/
def answer (policy : SpillPolicy) (job : JobId) (lead : Node) : Compiler.Result where
  graph := Compiler.shareInstances (p.fullGraph policy job) (p.vertexOf lead.id) p.instanceType
  report :=
    { diagnostics :=
        if p.instanceType.isNone then [.missingInstanceType (p.vertexOf lead.id)] else []
      placements := p.nodes.map p.placementOf
      anchor := p.vertexOf lead.id }

/-! ## Section 2: After the walk -/

variable {p} {policy : SpillPolicy} {job : JobId} {s : State}

theorem configStep_fused (n : Node) (t : TaskConfig) (e : Entry) :
    (p.configStep policy n t e).fused = t.fused := by
  cases e <;> simp only [configStep] <;> repeat' split
  all_goals rfl

theorem configAfter_fused (j : List Entry) (n : Node) : (p.configAfter policy j n).fused = [] := by
  induction j using List.reverseRecOn with
  | nil =>
    simp only [configAfter, List.foldl_nil, baseConfig]
    split <;> rfl
  | append_singleton j e ih => rw [configAfter_concat, configStep_fused, ih]

theorem made_fullLayout : (p.fullLayout policy).made = p.entered :=
  p.madeNodes_journal fun _ hcb => (p.mem_schedule.mp hcb).1

theorem resolved_fullLayout : (p.fullLayout policy).resolved = p.hostSequence :=
  p.hostedNodes_journal fun _ hcb => (p.mem_schedule.mp hcb).1

theorem fused_fullLayout (n : Node) : ((p.fullLayout policy).config n).fused = [] :=
  configAfter_fused _ n

/-- Before chains are appended, none is placed. -/
theorem hosts_start (h : p.Shows job (p.fullLayout policy) s) :
    p.Hosts job (p.fullLayout policy) [] s.graph (s.chains.map some)
      (Array.replicate s.chains.size none) := by
  have hfused : (p.fullLayout policy).made.filter p.fuses = p.fusedNodes := by
    rw [made_fullLayout]
    rfl
  have hchain : ∀ i : Nat, s.chains[i]? = (p.fusedNodes[i]?).map (p.chainIn (p.fullLayout policy)) :=
    fun i => hfused ▸ h.chain ⟨i⟩
  have hsize := size_eq_of_getElem? hchain
  refine ⟨fun id => ?_, fun i => ?_, fun i => ?_, h.job, h.name, h.config⟩
  · rw [h.vertex id, made_fullLayout]
    congr 1
    funext n
    have hn : ((p.fullLayout policy).config n).fused = [] := fused_fullLayout n
    revert hn
    simp only [vertexIn, hostIn, guests, List.filter_nil, List.map_nil]
    cases (p.fullLayout policy).config n
    rintro rfl
    rfl
  · rw [Array.getElem?_map, hchain i, Option.map_map]
    rfl
  · rw [Array.getElem?_replicate, hsize]
    cases hn : p.fusedNodes[i]? with
    | none => simp [Nat.not_lt.mpr (List.getElem?_eq_none_iff.mp hn)]
    | some n => simp [(List.getElem?_eq_some_iff.mp hn).1]

/-- A graph that holds the layout with all chains appended is the full graph. -/
theorem Hosts.graph_eq {graph : JobGraph} {pending : Array (Option Chain)}
    {placed : Array (Option Place)}
    (h : p.Hosts job (p.fullLayout policy) p.hostSequence graph pending placed) :
    graph = p.fullGraph policy job := by
  obtain ⟨id, name, config, vertices⟩ := graph
  have hvertices : vertices = (p.ownNodes.map (p.fullVertex policy)).toArray := by
    refine Array.ext_getElem? fun i => ?_
    simp only [List.getElem?_toArray, List.getElem?_map]
    exact h.vertex ⟨i⟩
  have hid : id = job := h.job
  have hname : name = p.jobName := h.name
  have hconfig : config = p.config := h.config
  rw [fullGraph, hvertices, hid, hname, hconfig]

/-- The placement of a node when all chains are placed. -/
theorem placement?_eq (h : p.Shows job (p.fullLayout policy) s) {placed : Array (Option Place)}
    (hplaced : ∀ i : Nat, placed[i]? = (p.fusedNodes[i]?).map fun n =>
      if n ∈ p.hostSequence then some (p.placeIn p.hostSequence n) else none)
    {n : Node} (hn : n ∈ p.nodes) : s.placement? placed n = .ok (p.placementOf n) := by
  have hnode := p.node?_of_mem hn
  by_cases hentered : n ∈ p.entered
  · have hu : n.isUnion = false := (p.mem_entered.mp hentered).2.1
    have hout := h.outcome?_eq (n := n) (made_fullLayout ▸ hentered)
    simp only [State.placement?, hout, placementOf, hu, hentered]
    cases hf : p.fuses n with
    | false => simp
    | true =>
      have hmem := p.mem_fusedNodes.mpr ⟨hentered, hf⟩
      have hseq := p.mem_hostSequence.mpr ⟨hentered, hf⟩
      have hplace : placed[(p.chainOf n.id).index]?.join = some (p.placeOf n) := by
        simp [hplaced, getElem?_chainOf hmem, hseq, placeOf]
      simp [hplace]
  · have hout := h.outcome?_eq_none hnode (made_fullLayout ▸ hentered)
    simp only [State.placement?, hout, placementOf, hentered]
    cases n.isUnion <;> rfl

theorem mapM_eq_ok {α β ε : Type} {f : α → Except ε β} {g : α → β} {xs : Array α}
    (h : ∀ x ∈ xs, f x = .ok (g x)) : xs.mapM f = .ok (xs.map g) := by
  have hlist : ∀ l : List α, (∀ x ∈ l, f x = .ok (g x)) → l.mapM f = .ok (l.map g) := by
    intro l
    induction l with
    | nil => exact fun _ => rfl
    | cons x rest ih =>
      intro h
      rw [List.mapM_cons, h x (List.mem_cons_self ..),
        ih fun y hy => h y (List.mem_cons_of_mem _ hy)]
      rfl
  rw [Array.mapM_eq_mapM_toList, hlist xs.toList fun x hx => h x (Array.mem_toList_iff.mp hx)]
  show Except.ok (xs.toList.map g).toArray = _
  rw [← Array.toList_map]

/-- What is left to do after the walk does not fail. -/
theorem assemble_eq (h : p.Shows job (p.fullLayout policy) s) (lead : Node) :
    Compiler.assemble p s (p.vertexOf lead.id) = .ok (p.answer policy job lead) := by
  -- The chains are appended in the order of the walk, and every one of them has a host by then.
  have hsequence : s.resolved.toList = p.hostSequence.map fun n => p.chainOf n.id := by
    rw [h.resolved, resolved_fullLayout]
  have hsplit : p.hostSequence = [] ++ p.hostSequence := rfl
  have hresolved : ∀ n ∈ p.hostSequence, n ∈ (p.fullLayout policy).resolved := by
    rw [resolved_fullLayout]
    exact fun n hn => hn
  obtain ⟨graph, pending, placed, hrun, hhosts⟩ := appendFrom_run (hosts_start h) hsplit hresolved
  have hplacements : p.nodes.mapM (s.placement? placed) = .ok (p.nodes.map p.placementOf) :=
    mapM_eq_ok fun n hn => placement?_eq h hhosts.placed hn
  simp only [Compiler.assemble, appendChains, hsequence, hrun, bind, Except.bind, hplacements,
    hhosts.graph_eq]
  rfl

/-- What a compilation answers: the first fault of a callback, or that there is no vertex, or the
graph and the report of the plan. -/
theorem compile_eq (c : Compiler) (job : JobId) (p : Plan) : c.compile job p =
    match p.schedule.findSome? p.callbackFault? with
    | some e => .error e
    | none =>
      match leading p.ownNodes with
      | none => .error .emptyPlan
      | some lead => .ok (p.answer c.policy job lead) := by
  have hrun := lower_runs c job p
  unfold Compiler.compile Compiler.lower
  cases hfault : p.schedule.findSome? p.callbackFault? with
  | some e =>
    rw [hfault] at hrun
    obtain ⟨s, hs⟩ := hrun
    simp only [hs]
  | none =>
    rw [hfault] at hrun
    obtain ⟨s, hs, hreaches⟩ := hrun
    have hshows : p.Shows job (p.fullLayout c.policy) s := hreaches
    have hanchor := hshows.anchor
    rw [made_fullLayout] at hanchor
    -- There is an anchor exactly if some node has a vertex.
    simp only [hs, Compiler.finish, hanchor, ownNodes]
    cases leading (p.entered.filter fun n => !p.fuses n) with
    | none => rfl
    | some lead =>
      simp only [Option.map_some, assemble_eq hshows lead]
      rfl

/-- A compilation that succeeds has met no fault and answers with the first node of the greatest
parallelism as the anchor. -/
theorem answer_of_ok {c : Compiler} {r : Compiler.Result} (h : c.compile job p = .ok r) :
    ∃ lead, p.schedule.findSome? p.callbackFault? = none ∧ leading p.ownNodes = some lead ∧
      r = p.answer c.policy job lead := by
  rw [compile_eq] at h
  split at h
  · simp at h
  · rename_i hfault
    split at h
    · simp at h
    · rename_i lead hlead
      exact ⟨lead, hfault, hlead, by simpa using h.symm⟩

/-- The vertices of the answer are those of the nodes that are not fused, in order. -/
theorem vertices_answer (lead : Node) : (p.answer policy job lead).graph.vertices.toList =
    p.ownNodes.map (p.sharedVertex policy lead) := by
  simp only [answer, Compiler.shareInstances, fullGraph, Array.toList_map, List.map_map]
  rfl

theorem vertex?_answer (lead : Node) {n : Node} (hn : n ∈ p.ownNodes) :
    (p.answer policy job lead).graph.vertex? (p.vertexOf n.id) =
      some (p.sharedVertex policy lead n) := by
  rw [JobGraph.vertex?, ← Array.getElem?_toList, vertices_answer, List.getElem?_map,
    getElem?_vertexOf hn]
  rfl

/-- Sharing instances leaves the rest of a vertex as it is. -/
theorem config_sharedVertex (lead n : Node) :
    (p.sharedVertex policy lead n).config = (p.fullVertex policy n).config := by
  simp only [sharedVertex]
  split <;> rfl

/-- No callback has a fault exactly if no node that is reached has one when it is entered or left. -/
theorem callbacks_ok_iff : p.schedule.findSome? p.callbackFault? = none ↔
    ∀ n ∈ p.entered, p.enterFault? n = none ∧ p.leaveFault? n = none := by
  rw [List.findSome?_eq_none_iff]
  constructor
  · intro h n hn
    have hnode := p.mem_entered.mp hn
    have henter := h (.enter n) (p.mem_schedule.mpr hnode)
    have hleave := h (.leave n) (p.mem_schedule.mpr hnode)
    exact ⟨by simpa [callbackFault?] using henter, by simpa [callbackFault?] using hleave⟩
  · intro h cb hcb
    have hn := h cb.node (p.mem_entered.mpr (p.mem_schedule.mp hcb))
    cases cb with
    | enter n => exact Option.map_eq_none_iff.mpr hn.1
    | leave n => exact Option.map_eq_none_iff.mpr hn.2

theorem compile_ok_iff (c : Compiler) (job : JobId) (p : Plan) :
    (∃ r, c.compile job p = .ok r) ↔
      (∀ n ∈ p.entered, p.enterFault? n = none ∧ p.leaveFault? n = none) ∧ p.ownNodes ≠ [] := by
  rw [compile_eq, ← callbacks_ok_iff, ne_eq, ← leading_eq_none_iff]
  cases p.schedule.findSome? p.callbackFault? with
  | some e => simp
  | none => cases leading p.ownNodes <;> simp

/-- A plan compiles if no callback has a fault and some node has a vertex. -/
theorem compiles_of_faultless (c : Compiler) (job : JobId)
    (hfault : p.schedule.findSome? p.callbackFault? = none) {n : Node} (hn : n ∈ p.ownNodes) :
    ∃ r, c.compile job p = .ok r :=
  (compile_ok_iff c job p).mpr ⟨callbacks_ok_iff.mp hfault, List.ne_nil_of_mem hn⟩

/-! ## Section 3: A plan that compiles -/

/-- Records of two sources are joined, counted and formatted. -/
def wordCountParts : Parts where
  jobName := "word count"
  nodes := #[
    { (({ name := "left", kind := .source ⟨"Word", .empty⟩ } : NodeDraft).toNode ⟨0⟩) with
      outgoing := [⟨0⟩] },
    { (({ name := "right", kind := .source ⟨"Word", .empty⟩ } : NodeDraft).toNode ⟨1⟩) with
      outgoing := [⟨1⟩] },
    { (({ name := "both", kind := .union } : NodeDraft).toNode ⟨2⟩) with
      inputs := [⟨0⟩, ⟨1⟩], outgoing := [⟨2⟩] },
    { (({ name := "count", kind := .singleInput .sortedGroup none } : NodeDraft).toNode ⟨3⟩) with
      inputs := [⟨2⟩], outgoing := [⟨3⟩] },
    { (({ name := "format", kind := .singleInput .map none } : NodeDraft).toNode ⟨4⟩) with
      inputs := [⟨3⟩], outgoing := [⟨4⟩] },
    { (({ name := "out", kind := .sink } : NodeDraft).toNode ⟨5⟩) with inputs := [⟨4⟩] }]
  channels := #[
    { ship := .partitionHash, serializer := ⟨"Word", .empty⟩, id := ⟨0⟩, source := ⟨0⟩, target := ⟨2⟩ },
    { ship := .partitionHash, serializer := ⟨"Word", .empty⟩, id := ⟨1⟩, source := ⟨1⟩, target := ⟨2⟩ },
    { ship := .forward, serializer := ⟨"Word", .empty⟩, id := ⟨2⟩, source := ⟨2⟩, target := ⟨3⟩ },
    { ship := .forward, serializer := ⟨"Count", .empty⟩, id := ⟨3⟩, source := ⟨3⟩, target := ⟨4⟩ },
    { ship := .forward, serializer := ⟨"Line", .empty⟩, id := ⟨4⟩, source := ⟨4⟩, target := ⟨5⟩ }]
  sinks := [⟨5⟩]

theorem wordCount_consistent : wordCountParts.Consistent :=
  wordCountParts.inconsistency?_eq_none_iff.mp (by decide)

theorem wordCount_listing :
    wordCountParts.listing = .ok [⟨5⟩, ⟨4⟩, ⟨3⟩, ⟨2⟩, ⟨1⟩, ⟨0⟩] := by cbv

/-- The plan of these parts. -/
def wordCount : Plan :=
  { wordCountParts with
    consistent := wordCount_consistent
    acyclic := Parts.acyclic_of_listing wordCount_consistent wordCount_listing }

/-- The builder of the plan before the sinks are taken. -/
def wordCountBuilder : Builder := ⟨{ wordCountParts with sinks := [] }⟩

theorem wordCount_built : wordCountBuilder.build = .ok wordCount :=
  wordCount.ofParts_toParts wordCount_listing

theorem wordCount_branchesOf :
    wordCount.branchesOf ⟨2⟩ = [wordCount.channels[0], wordCount.channels[1]] := by cbv

/-- The plan compiles. -/
theorem wordCount_compiles (c : Compiler) (job : JobId) : ∃ r, c.compile job wordCount = .ok r := by
  have hfault : wordCount.schedule.findSome? wordCount.callbackFault? = none := by cbv
  have hout : wordCount.nodes[5] ∈ wordCount.ownNodes :=
    wordCount.sink_mem_ownNodes rfl rfl (List.mem_singleton_self _)
  exact compiles_of_faultless c job hfault hout

end Plan

end Dataflow
