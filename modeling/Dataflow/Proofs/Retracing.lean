import Dataflow.Proofs.Renaming
import Dataflow.Proofs.Wires

/-! # Plans that are walked alike

    What a compilation makes of a plan depends on the order of the callbacks, on
    what is fused and where, on the branches of the inputs and on the faults.
    Where two plans agree in these, up to the handles of their nodes and the ends
    of their channels, they are answered alike, whatever else tells them apart:
    the order of their arenas, or the unions that the branches have come through.

    Main statement:
    - `Retraces.compile`: plans that are walked alike are answered alike
-/

namespace Dataflow

open Lowering

namespace Plan

/-! ## Section 1: Lists of renamed nodes -/

theorem position_rename (ρ : Renaming) (l : List Node) (id : NodeId) :
    position (l.map (Node.rename ρ)) (ρ.node id) = position l id := by
  simp only [position, List.findIdx_map, Function.comp_def, rename_id, ρ.node.injective.eq_iff]

/-- Which node leads is not read off a handle. -/
theorem leading_rename (ρ : Renaming) (l : List Node) :
    leading (l.map (Node.rename ρ)) = (leading l).map (Node.rename ρ) := by
  induction l using List.reverseRecOn with
  | nil => rfl
  | append_singleton l n ih =>
    rw [List.map_append, List.map_singleton, leading_concat, leading_concat, ih]
    cases leading l with
    | none => rfl
    | some m =>
      have hparallelism : ∀ k : Node, (k.rename ρ).parallelism = k.parallelism := fun _ => rfl
      simp only [Option.map_some, hparallelism]
      split <;> rfl

/-! ## Section 2: Plans that are walked alike -/

/-- The entry with its nodes under new handles and its channel replaced. -/
def Entry.carry (ρ : Renaming) (f : Channel → Channel) : Entry → Entry
  | made n => made (n.rename ρ)
  | wired n input branch => wired (n.rename ρ) input (f branch)
  | described n input ch => described (n.rename ρ) input (f ch)
  | hosted n ch => hosted (n.rename ρ) (f ch)

/-- A walk over one plan is a walk over the other one under new handles, with channels that carry the
same from the same nodes. Nothing is asked of unions but that they are in the same places. -/
structure Retraces (ρ : Renaming) (f : Channel → Channel) (p p' : Plan) : Prop where
  /-- A channel is replaced by one with the same shipment. -/
  shipment : ∀ ch, (f ch).toShipment = ch.toShipment
  /-- A channel is replaced by one from the same node. -/
  source : ∀ ch, (f ch).source = ρ.node ch.source
  /-- Under its new handle a node is the same, or both are unions. -/
  node : ∀ id, Option.Rel
    (fun n n' => n'.isUnion = n.isUnion ∧ (n.isUnion = false → n' = n.rename ρ))
    (p.node? id) (p'.node? (ρ.node id))
  /-- The callbacks are for the same nodes in the same order. -/
  schedule : p'.schedule = p.schedule.map (Callback.rename ρ)
  /-- The same nodes are fused. -/
  fuses : ∀ n, p.node? n.id = some n → n.isUnion = false → p'.fuses (n.rename ρ) = p.fuses n
  /-- The same nodes are hosts. -/
  host : ∀ id, p'.host (ρ.node id) = ρ.node (p.host id)
  /-- The entries are for the same nodes and channels. -/
  entries : ∀ cb : Callback, p.node? cb.node.id = some cb.node → cb.node.isUnion = false →
    p'.entries (cb.rename ρ) = (p.entries cb).map (Entry.carry ρ f)
  /-- Entering a node fails alike. -/
  enterFault? : ∀ n, p.node? n.id = some n → n.isUnion = false →
    p'.enterFault? (n.rename ρ) = (p.enterFault? n).map (StepError.rename ρ)
  /-- Leaving a node fails alike. -/
  leaveFault? : ∀ n, p.node? n.id = some n → n.isUnion = false →
    p'.leaveFault? (n.rename ρ) = (p.leaveFault? n).map (StepError.rename ρ)
  /-- The jobs have one name. -/
  jobName : p'.jobName = p.jobName
  /-- The jobs have the same settings. -/
  config : p'.config = p.config
  /-- The types of the instances agree. -/
  instanceType : p'.instanceType = p.instanceType

variable {ρ : Renaming} {f : Channel → Channel} {p p' : Plan} {policy : SpillPolicy}

namespace Retraces

variable (h : Retraces ρ f p p')
include h

/-! ## Section 3: The order of the walk -/

theorem entered : p'.entered = p.entered.map (Node.rename ρ) := by
  rw [Plan.entered, Plan.entered, h.schedule, List.filterMap_map, List.map_filterMap]
  congr 1
  funext cb
  cases cb <;> rfl

theorem left : p'.left = p.left.map (Node.rename ρ) := by
  rw [Plan.left, Plan.left, h.schedule, List.filterMap_map, List.map_filterMap]
  congr 1
  funext cb
  cases cb <;> rfl

theorem fuses_entered {n : Node} (hn : n ∈ p.entered) : p'.fuses (n.rename ρ) = p.fuses n :=
  h.fuses n (p.mem_entered.mp hn).1 (p.mem_entered.mp hn).2.1

/-- What is fused among some nodes is fused among them under their new handles. -/
theorem filter_fuses (g : Bool → Bool) {l : List Node} (hl : ∀ n ∈ l, n ∈ p.entered) :
    ((l.map (Node.rename ρ)).filter fun n => g (p'.fuses n)) =
      (l.filter fun n => g (p.fuses n)).map (Node.rename ρ) := by
  rw [List.filter_map]
  congr 1
  apply List.filter_congr
  intro n hn
  rw [Function.comp_apply, h.fuses_entered (hl n hn)]

theorem ownNodes : p'.ownNodes = p.ownNodes.map (Node.rename ρ) := by
  rw [Plan.ownNodes, h.entered]
  exact h.filter_fuses (!·) fun n hn => hn

theorem hostSequence : p'.hostSequence = p.hostSequence.map (Node.rename ρ) := by
  rw [Plan.hostSequence, h.left]
  exact h.filter_fuses id fun n hn => p.mem_entered.mpr (p.mem_left.mp hn)

theorem vertexOf (id : NodeId) : p'.vertexOf (ρ.node id) = p.vertexOf id := by
  rw [Plan.vertexOf, h.ownNodes, position_rename, ← Plan.vertexOf]

theorem guests (id : NodeId) : p'.guests p'.hostSequence (ρ.node id) =
    (p.guests p.hostSequence id).map (Node.rename ρ) := by
  rw [Plan.guests, h.hostSequence, List.filter_map]
  congr 1
  apply List.filter_congr
  intro n _
  simp only [Function.comp_apply, rename_id, h.host, ρ.node.injective.eq_iff]

theorem placeOf (n : Node) : p'.placeOf (n.rename ρ) = p.placeOf n := by
  simp only [Plan.placeOf, placeIn, rename_id, h.host, h.vertexOf, h.guests, position_rename]

/-- Where a node is placed is not read off its handle, and a union is placed nowhere. -/
theorem placement (id : NodeId) :
    (p'.node? (ρ.node id)).bind p'.placementOf = (p.node? id).bind p.placementOf := by
  have hnode := h.node id
  cases hn : p.node? id with
  | none =>
    rw [hn] at hnode
    cases hn' : p'.node? (ρ.node id) with
    | none => rfl
    | some n' => rw [hn'] at hnode; cases hnode
  | some n =>
    rw [hn] at hnode
    cases hn' : p'.node? (ρ.node id) with
    | none => rw [hn'] at hnode; cases hnode
    | some n' =>
      rw [hn', Option.rel_some_some] at hnode
      obtain ⟨hu', hsame⟩ := hnode
      cases hu : n.isUnion with
      | true => simp [Plan.placementOf, hu', hu]
      | false =>
        obtain rfl := hsame hu
        obtain rfl := p.id_eq hn
        simp only [Option.bind_some, Plan.placementOf, rename_isUnion, h.entered,
          List.mem_map_of_injective (Node.rename_injective ρ), h.fuses n hn hu, h.placeOf, rename_id,
          h.vertexOf]

theorem journal : p'.journal p'.schedule = (p.journal p.schedule).map (Entry.carry ρ f) := by
  rw [Plan.journal, Plan.journal, h.schedule, List.flatMap_map, List.map_flatMap]
  apply List.flatMap_congr
  intro cb hcb
  obtain ⟨hnode, hu, -⟩ := p.mem_schedule.mp hcb
  exact h.entries cb hnode hu

/-! ## Section 4: Vertices -/

/-- What an entry does to a configuration is not read off a handle or the end of a channel. -/
theorem configStep {n : Node} (hn : n ∈ p.entered) (t : TaskConfig) (e : Entry) :
    p'.configStep policy (n.rename ρ) t (e.carry ρ f) = p.configStep policy n t e := by
  cases e with
  | made m => rfl
  | wired m i b =>
    simp only [Plan.configStep, Entry.carry, rename_id, h.source, ρ.node.injective.eq_iff,
      TaskConfig.addOutputFor, h.shipment]
  | described m i ch =>
    simp only [Plan.configStep, Entry.carry, rename_id, ρ.node.injective.eq_iff,
      TaskConfig.describeInput, InputSlot.describe, h.shipment]
  | hosted m ch =>
    simp only [Plan.configStep, Entry.carry, rename_id, h.source, h.fuses_entered hn,
      ρ.node.injective.eq_iff, h.shipment]

theorem configAfter {n : Node} (hn : n ∈ p.entered) (j : List Entry) :
    p'.configAfter policy (j.map (Entry.carry ρ f)) (n.rename ρ) = p.configAfter policy j n := by
  induction j using List.reverseRecOn with
  | nil =>
    simp only [Plan.configAfter, List.map_nil, List.foldl_nil, baseConfig, rename_kind,
      h.fuses_entered hn]
    rfl
  | append_singleton j e ih =>
    rw [List.map_append, List.map_singleton, configAfter_concat, configAfter_concat, ih,
      h.configStep hn]

theorem wiresAfter (j : List Entry) (id : NodeId) :
    p'.wiresAfter (j.map (Entry.carry ρ f)) (ρ.node id) = p.wiresAfter j id := by
  rw [Plan.wiresAfter, Plan.wiresAfter, List.filterMap_map]
  apply List.filterMap_congr
  intro e _
  cases e with
  | wired n i b =>
    simp only [Function.comp_apply, wireFrom?, Entry.carry, h.source, rename_id, h.host, h.vertexOf,
      h.shipment, ρ.node.injective.eq_iff]
  | made n => rfl
  | described n i ch => rfl
  | hosted n ch => rfl

theorem config_fullLayout {n : Node} (hn : n ∈ p.entered) :
    (p'.fullLayout policy).config (n.rename ρ) = (p.fullLayout policy).config n := by
  simp only [fullLayout, layoutAfter, h.journal, h.configAfter hn]

/-- A node has the same vertex under its new handle. -/
theorem fullVertex {n : Node} (hn : n ∈ p.entered) :
    p'.fullVertex policy (n.rename ρ) = p.fullVertex policy n := by
  have hwires : (p'.fullLayout policy).wires (n.rename ρ) = (p.fullLayout policy).wires n := by
    simp only [fullLayout, layoutAfter, h.journal, rename_id, h.wiresAfter]
  have htasks : (p'.guests p'.hostSequence (ρ.node n.id)).map (taskIn (p'.fullLayout policy)) =
      (p.guests p.hostSequence n.id).map (taskIn (p.fullLayout policy)) := by
    rw [h.guests, List.map_map]
    apply List.map_congr_left
    intro m hm
    have hmem := (p.mem_hostSequence.mp (List.mem_filter.mp hm).1).1
    have hconfig : (p'.fullLayout policy).config (m.rename ρ) = _ := h.config_fullLayout hmem
    simp only [Function.comp_apply, taskIn, hconfig]
    rfl
  simp only [Plan.fullVertex, hostIn, vertexIn, rename_id, h.vertexOf, h.config_fullLayout hn, hwires,
    htasks]
  rfl

theorem fullGraph (job : JobId) : p'.fullGraph policy job = p.fullGraph policy job := by
  have hvertices : p'.ownNodes.map (p'.fullVertex policy) = p.ownNodes.map (p.fullVertex policy) := by
    rw [h.ownNodes, List.map_map]
    apply List.map_congr_left
    intro n hn
    exact h.fullVertex (p.mem_ownNodes.mp hn).1
  simp only [Plan.fullGraph, hvertices, h.jobName, h.config]

end Retraces

/-! ## Section 5: Answers -/

/-- Two results are the same, but for the handles of the nodes in the report and the identifier of
the graph. -/
structure SameResult (ρ : Renaming) (r r' : Compiler.Result) : Prop where
  /-- The graphs have one name. -/
  name : r'.graph.name = r.graph.name
  /-- The graphs have the same settings. -/
  config : r'.graph.config = r.graph.config
  /-- The graphs have the same vertices in the same order. -/
  vertices : r'.graph.vertices = r.graph.vertices
  /-- The graphs have one fingerprint. -/
  fingerprint : r'.graph.fingerprint = r.graph.fingerprint
  /-- The reports have one anchor. -/
  anchor : r'.report.anchor = r.report.anchor
  /-- The reports leave the same things open. -/
  diagnostics : r'.report.diagnostics = r.report.diagnostics
  /-- A node is placed under its new handle where it was placed under the old one. -/
  placement : ∀ id, r'.report.placement? (ρ.node id) = r.report.placement? id

/-- Two compilations fail alike: for want of a vertex, or at one step for a node of the plan and for
the node under its new handle. -/
inductive SameError (ρ : Renaming) (p : Plan) : CompileError → CompileError → Prop where
  /-- Neither makes a vertex. -/
  | emptyPlan : SameError ρ p .emptyPlan .emptyPlan
  /-- Both fail in one phase and for one cause, in which the nodes are renamed. -/
  | step {n : Node} (hn : p.node? n.id = some n) (phase : Phase) (cause : StepError) :
      SameError ρ p (.step n.display n.id phase cause)
        (.step (n.rename ρ).display (ρ.node n.id) phase (cause.rename ρ))

/-- Two compilations succeed with the same result or fail alike. -/
inductive SameAnswer (ρ : Renaming) (p : Plan) :
    Except CompileError Compiler.Result → Except CompileError Compiler.Result → Prop where
  | ok {r r' : Compiler.Result} (h : SameResult ρ r r') : SameAnswer ρ p (.ok r) (.ok r')
  | error {e e' : CompileError} (h : SameError ρ p e e') : SameAnswer ρ p (.error e) (.error e')

namespace Retraces

variable (h : Retraces ρ f p p')
include h

/-- A callback fails under new handles where it fails under the old ones. -/
theorem callbackFault? {cb : Callback} (hcb : cb ∈ p.schedule) :
    Option.Rel (SameError ρ p) (p.callbackFault? cb) (p'.callbackFault? (cb.rename ρ)) := by
  obtain ⟨hn, hu, -⟩ := p.mem_schedule.mp hcb
  cases cb with
  | enter n =>
    simp only [Plan.callbackFault?, Callback.rename, h.enterFault? n hn hu]
    cases p.enterFault? n with
    | none => exact .none
    | some cause => exact .some (.step hn .materialize cause)
  | leave n =>
    simp only [Plan.callbackFault?, Callback.rename, h.leaveFault? n hn hu]
    cases p.leaveFault? n with
    | none => exact .none
    | some cause => exact .some (.step hn .wire cause)

/-- The first fault of some callbacks is that of the callbacks under new handles. -/
theorem firstFault {done : List Callback} (hdone : ∀ cb ∈ done, cb ∈ p.schedule) :
    Option.Rel (SameError ρ p) (done.findSome? p.callbackFault?)
      ((done.map (Callback.rename ρ)).findSome? p'.callbackFault?) := by
  induction done with
  | nil => exact .none
  | cons cb rest ih =>
    have ih := ih fun cb hcb => hdone cb (List.mem_cons_of_mem _ hcb)
    have hfirst := h.callbackFault? (hdone cb (List.mem_cons_self ..))
    rw [List.map_cons, List.findSome?_cons, List.findSome?_cons]
    revert hfirst
    generalize p.callbackFault? cb = fault, p'.callbackFault? (cb.rename ρ) = fault'
    rintro (hfault | _)
    · exact .some hfault
    · exact ih

/-- The answers for one leading node are the same. -/
theorem answer (job job' : JobId) (lead : Node) :
    SameResult ρ (p.answer policy job lead) (p'.answer policy job' (lead.rename ρ)) := by
  have hgraph : (p'.answer policy job' (lead.rename ρ)).graph =
      { (p.answer policy job lead).graph with id := job' } := by
    simp only [Plan.answer, rename_id, h.vertexOf, h.fullGraph, h.instanceType]
    rfl
  refine {
    name := by rw [hgraph]
    config := by rw [hgraph]
    vertices := by rw [hgraph]
    fingerprint := by rw [hgraph]; rfl
    anchor := h.vertexOf lead.id
    diagnostics := by simp only [Plan.answer, rename_id, h.vertexOf, h.instanceType]
    placement := fun id => ?_ }
  rw [places_answer lead id, places_answer (lead.rename ρ) (ρ.node id), h.placement]

/-- Plans that are walked alike are answered alike, by every compiler. -/
theorem compile (c : Compiler) (job job' : JobId) :
    SameAnswer ρ p (c.compile job p) (c.compile job' p') := by
  have hfirst := h.firstFault fun _ hcb => hcb
  rw [compile_eq, compile_eq, h.schedule, h.ownNodes, leading_rename]
  revert hfirst
  generalize p.schedule.findSome? p.callbackFault? = fault,
    (p.schedule.map (Callback.rename ρ)).findSome? p'.callbackFault? = fault'
  rintro (hfault | _)
  · exact .error hfault
  · cases leading p.ownNodes with
    | none => exact .error .emptyPlan
    | some lead => exact .ok (h.answer job job' lead)

end Retraces

end Plan

end Dataflow
