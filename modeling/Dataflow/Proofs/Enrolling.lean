import Dataflow.Proofs.Lower
import Dataflow.Proofs.Rewiring

/-! # What nodes are registered with

    Whenever a node becomes something this is reported. So the reports are a
    ledger of what has been written into the state for each node, and would show
    it if a node were given a vertex and a chain, or two of either.

    The ledger grows by one when a node is entered, whatever its kind, and not at
    all when a node is left. Along the schedule it names the nodes that have been
    entered, each with what the schedule makes of it.

    Main statements:
    - `materialize_registers`: what a node becomes is registered for it alone
    - `remembers_enrolled`: along the schedule the ledger names the nodes that
      have been entered
-/

namespace Dataflow

open Lowering

/-! ## Section 1: One node -/

namespace Lowering

/-- A node has become something and nothing else has. -/
def State.Registers (s : State) (id : NodeId) (s' : State) : Prop :=
  ∃ o, s'.registrations = s.registrations ++ [(id, o)] ∧
    (id.index < s.outcomes.size → s'.outcome? id = some o)

variable {policy : SpillPolicy} {p : Plan} {n : Plan.Node} {s s' : State}

theorem makeVertex_registers {kind : VertexKind} {taskClass : TaskClass} {config : TaskConfig}
    (h : makeVertex n kind taskClass config s = .ok () s') : s.Registers n.id s' := by
  cases h
  refine ⟨.vertex ⟨s.graph.vertices.size⟩, State.registrations_report _ _, fun hid => ?_⟩
  have hself := Plan.outcome?_settle s hid (.vertex ⟨s.graph.vertices.size⟩) n.id
  rwa [if_pos rfl] at hself

theorem makeChain_registers {driver : String} {config : TaskConfig}
    (h : makeChain n driver config s = .ok () s') : s.Registers n.id s' := by
  cases h
  refine ⟨.fused ⟨s.chains.size⟩, State.registrations_report _ _, fun hid => ?_⟩
  have hself := Plan.outcome?_settle s hid (.fused ⟨s.chains.size⟩) n.id
  rwa [if_pos rfl] at hself

theorem makeOperator_registers {driver : DriverStrategy} {config : TaskConfig}
    (h : makeOperator n driver config s = .ok () s') : s.Registers n.id s' := by
  unfold makeOperator at h
  cases hdriver : driver.taskDriver? with
  | none =>
    rw [hdriver] at h
    cases h
  | some text =>
    rw [hdriver] at h
    exact makeVertex_registers h

/-- What a node becomes is registered for it, once, and nothing else is registered. -/
theorem materialize_registers (hu : n.isUnion = false)
    (h : materialize policy p n s = .ok () s') : s.Registers n.id s' := by
  unfold materialize at h
  cases hkind : n.kind with
  | source serializer => exact makeVertex_registers (by simpa only [hkind] using h)
  | sink => exact makeVertex_registers (by simpa only [hkind] using h)
  | dualInput driver first second pairComparator =>
    exact makeOperator_registers (by simpa only [hkind] using h)
  | union => simp [Plan.Node.isUnion, Plan.Kind.isUnion, hkind] at hu
  | singleInput driver comparator =>
    simp only [hkind, Step.ofExcept, bind, EStateM.bind] at h
    cases hb : blocker? p n driver with
    | error e => simp [hb] at h
    | ok blocker =>
      simp only [hb] at h
      cases blocker with
      | none =>
        cases hchain : driver.chainDriver? with
        | some text => exact makeChain_registers (by simpa only [hchain] using h)
        | none => exact makeOperator_registers (by simpa only [hchain] using h)
      | some reason =>
        -- That it is not fused is reported first, but registers nothing.
        obtain ⟨o, hledger, hout⟩ := makeOperator_registers h
        rw [State.registrations_report] at hledger
        exact ⟨o, hledger.trans (by simp [Event.registration?]), hout⟩

end Lowering

/-! ## Section 2: Along the schedule -/

namespace Plan

/-- What a node becomes by the schedule. -/
def becomes (p : Plan) (n : Node) : Outcome :=
  if p.fuses n then .fused (p.chainOf n.id) else .vertex (p.vertexOf n.id)

/-- The ledger names the nodes that have been entered, in their order, with what they have become. -/
def Enrolled (p : Plan) (done : List Callback) (s : State) : Prop :=
  s.registrations = (done.filterMap Callback.entered?).map fun n => (n.id, p.becomes n)

variable {p : Plan} {policy : SpillPolicy} {job : JobId} {done : List Callback} {s s' : State}

theorem forNode_ok {n : Node} {phase : Phase} {step : Step Unit}
    (h : forNode n phase step s = .ok () s') : step s = .ok () s' := by
  unfold forNode EStateM.adaptExcept at h
  cases hstep : step s with
  | ok _ s'' =>
    rw [hstep] at h
    cases h
    rfl
  | error e s'' => simp [hstep] at h

/-- One more node that is entered is one more entry of the ledger. -/
theorem Enrolled.enter {n : Node} (h : p.Enrolled done s)
    (hnext : done ++ [.enter n] <+: p.schedule) (hs : p.Reaches policy job done s)
    (hrun : act policy p (.enter n) s = .ok () s')
    (hs' : p.Reaches policy job (done ++ [.enter n]) s') :
    p.Enrolled (done ++ [.enter n]) s' := by
  have hmem : .enter n ∈ done ++ [.enter n] := List.mem_append_right _ (List.mem_singleton_self _)
  obtain ⟨hn, hu⟩ := node_of_done hnext hmem
  obtain ⟨o, hledger, hout⟩ := materialize_registers hu (forNode_ok hrun)
  have hsize : n.id.index < s.outcomes.size := hs.size ▸ (Array.getElem?_eq_some_iff.mp hn).1
  -- What has been registered is what the state after the callback shows.
  obtain rfl : o = p.becomes n := by
    have hmade := (mem_madeNodes_journal hnext).mpr hmem
    exact Option.some.inj ((hout hsize).symm.trans (Shows.outcome?_eq hs' hmade))
  unfold Enrolled at h ⊢
  rw [hledger, h, List.filterMap_append, List.map_append]
  rfl

/-- A node that is left changes nothing in the ledger. -/
theorem Enrolled.leave {n : Node} (h : p.Enrolled done s)
    (hrun : act policy p (.leave n) s = .ok () s') : p.Enrolled (done ++ [.leave n]) s' := by
  have hledger := (rewires_leave n).ok hrun
  unfold Enrolled at h ⊢
  rw [hledger.registrations, h, List.filterMap_append]
  simp [Callback.entered?]

/-- Along the schedule the ledger names the nodes that have been entered. -/
theorem remembers_enrolled : p.Remembers (visitor policy p) (act policy p) p.callbackFault?
    fun done s => p.Reaches policy job done s ∧ p.Enrolled done s := by
  apply remembers_visitor.and
  intro done cb s s' hnext hs hrun hs' henrolled
  cases cb with
  | enter n => exact henrolled.enter hnext hs hrun hs'
  | leave n => exact henrolled.leave hrun

theorem enrolled_start (p : Plan) (job : JobId) : p.Enrolled [] (.start job p) := rfl

end Plan

end Dataflow
