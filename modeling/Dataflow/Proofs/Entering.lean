import Dataflow.Proofs.Faults
import Dataflow.Proofs.Make
import Dataflow.Proofs.Runs

/-! # Entering a node

    When the turn of a node has come, no entry has been about it: it has no
    configuration but the one that it is made with, no wires and no host. So to
    enter it is to add one entry, unless that has a fault.

    Main statement:
    - `enter_runs`: a node that is entered gets its vertex or its chain, or the
      fault of entering it shows
-/

namespace Dataflow

namespace Plan

open Lowering

/-! ## Section 1: Entries about a node -/

variable {p} {policy : SpillPolicy} {job : JobId} {s : State} {j : List Entry}

/-- An entry is about a node: it is made, or one end of what is wired. -/
def Entry.Touches (p : Plan) (id : NodeId) : Entry → Prop
  | made n => n.id = id
  | wired n _ b => n.id = id ∨ b.source = id ∨ p.host b.source = id
  | described n _ _ => n.id = id
  | hosted n ch => n.id = id ∨ ch.source = id

theorem configAfter_of_untouched (policy : SpillPolicy) {n : Node}
    (h : ∀ e ∈ j, ¬ e.Touches p n.id) : p.configAfter policy j n = p.baseConfig policy n := by
  induction j using List.reverseRecOn with
  | nil => rfl
  | append_singleton j e ih =>
    rw [configAfter_concat, ih fun e he => h e (List.mem_append_left _ he)]
    have he := h e (by simp)
    cases e <;> simp_all [Entry.Touches, configStep]

theorem wiresAfter_of_untouched {id : NodeId} (h : ∀ e ∈ j, ¬ e.Touches p id) :
    p.wiresAfter j id = [] := by
  apply List.filterMap_eq_nil_iff.mpr
  intro e he
  have he := h e he
  cases e <;> simp_all [Entry.Touches, wireFrom?]

theorem not_mem_hostedNodes_of_untouched {n : Node} (h : ∀ e ∈ j, ¬ e.Touches p n.id) :
    n ∉ hostedNodes j := by
  intro hn
  obtain ⟨e, he, hen⟩ := List.mem_filterMap.mp hn
  have he := h e he
  cases e <;> simp_all [Entry.Touches, Entry.hosted?]

/-! ## Section 2: Entering a node -/

/-- An operator that gets a vertex needs a driver. -/
theorem makeOperator_runs {n : Node} {driver : DriverStrategy} {config : TaskConfig}
    {post : State → Prop}
    (h : ∀ text, driver.taskDriver? = some text → ∃ s',
      makeVertex n .task .regular { config with driver := some text } s = .ok () s' ∧ post s') :
    Runs (makeOperator n driver config) s (driverFault? n driver) post := by
  unfold makeOperator driverFault?
  cases hdriver : driver.taskDriver? with
  | none => exact ⟨s, rfl⟩
  | some text => exact h text hdriver

section
variable {n : Node} (huntouched : ∀ e ∈ j, ¬ e.Touches p n.id)
include huntouched

/-- A layout with a node made is the one after the entry, if no entry was about the node before. -/
theorem Shows.after_made {s' : State}
    (hs' : p.Shows job ((p.layoutAfter policy j).make n (p.baseConfig policy n)) s') :
    p.Shows job (p.layoutAfter policy (j ++ [.made n])) s' := by
  refine hs'.congr ?_ (fun m hm => ?_) (fun m hm _ => ?_) ?_
  · simp [layoutAfter, Layout.make, madeNodes, Entry.made?]
  · simp only [layoutAfter, Layout.make, configAfter_concat, configStep]
    split
    · rename_i hmn
      rw [hmn, configAfter_of_untouched policy huntouched]
    · rfl
  · simp only [layoutAfter, Layout.make, wiresAfter_concat, wireFrom?]
    split
    · rename_i hmn
      simp [hmn, wiresAfter_of_untouched huntouched]
    · simp
  · simp [layoutAfter, Layout.make, hostedNodes, Entry.hosted?]

variable (h : p.Shows job (p.layoutAfter policy j) s) (hn : p.node? n.id = some n)
  (hbegun : madeNodes j ++ [n] <+: p.entered)
include h hn hbegun

/-- The state after the vertex of a node has been made holds the layout after the entry. -/
theorem own_made (hf : p.fuses n = false) : ∃ s',
    makeVertex n (vertexKind n) (taskClass n) (p.baseConfig policy n) s = .ok () s' ∧
      p.Shows job (p.layoutAfter policy (j ++ [.made n])) s' := by
  obtain ⟨s', hrun, hs'⟩ := h.makeVertex hn hbegun hf (p.baseConfig policy n)
  exact ⟨s', hrun, hs'.after_made huntouched⟩

/-- The state after the chain of a node has been made holds the layout after the entry. -/
theorem fused_made (hf : p.fuses n = true) : ∃ s',
    makeChain n (pushDriver n) (p.baseConfig policy n) s = .ok () s' ∧
      p.Shows job (p.layoutAfter policy (j ++ [.made n])) s' := by
  obtain ⟨s', hrun, hs'⟩ := h.makeChain hn hbegun hf (not_mem_hostedNodes_of_untouched huntouched)
    (p.baseConfig policy n)
  exact ⟨s', hrun, hs'.after_made huntouched⟩

/-- A node that is entered gets its vertex or its chain, or the fault of entering it shows. -/
theorem enter_runs (hu : n.isUnion = false) : Runs (materialize policy p n) s (p.enterFault? n)
    (p.Shows job (p.layoutAfter policy (j ++ [.made n]))) := by
  unfold materialize enterFault?
  -- Only an operator with one input can be fused; the other kinds get a vertex or fail at once.
  cases hkind : n.kind with
  | source serializer =>
    have := own_made huntouched h hn hbegun (by simp [fuses, hkind])
    simpa [Runs, vertexKind, taskClass, baseConfig, hkind] using this
  | sink =>
    have := own_made huntouched h hn hbegun (by simp [fuses, hkind])
    simpa [Runs, vertexKind, taskClass, baseConfig, hkind] using this
  | dualInput driver first second pairComparator =>
    apply makeOperator_runs
    intro text htext
    have := own_made huntouched h hn hbegun (by simp [fuses, hkind])
    simpa [vertexKind, taskClass, baseConfig, hkind, htext] using this
  | union => simp [Node.isUnion, Kind.isUnion, hkind] at hu
  | singleInput driver comparator =>
    cases hb : blocker? p n driver with
    | error e =>
      simp only [hb]
      exact ⟨s, by simp [Step.ofExcept, bind, EStateM.bind]⟩
    | ok blocker =>
      cases blocker with
      | none =>
        have hf : p.fuses n = true := by simp [fuses, hkind, hb]
        obtain ⟨ch, producer, hfused⟩ := p.exists_fused hn hf
        obtain ⟨driver', comparator', text, hkind', htext⟩ := hfused.driver
        obtain ⟨rfl, rfl⟩ : driver = driver' ∧ comparator = comparator' := by
          simpa [hkind] using hkind'
        have := fused_made huntouched h hn hbegun hf
        simpa [Runs, hb, Step.ofExcept, bind, EStateM.bind, htext, pushDriver, baseConfig, hkind,
          Kind.driver?, hf, operatorConfig] using this
      | some reason =>
        have hf : p.fuses n = false := by simp [fuses, hkind, hb]
        simp only [hb]
        -- What keeps it from being fused is reported before the vertex is made.
        have hstep : ∀ text, driver.taskDriver? = some text → ∃ s',
            makeVertex n .task .regular
              { operatorConfig policy n driver [comparator] none with driver := some text }
              (s.report (.notFused n.id reason)) = .ok () s' ∧
            p.Shows job (p.layoutAfter policy (j ++ [.made n])) s' := by
          intro text htext
          have := own_made huntouched (h.report (.notFused n.id reason)) hn hbegun hf
          simpa [vertexKind, taskClass, baseConfig, hkind, htext, hf] using this
        exact makeOperator_runs hstep

end

end Plan

end Dataflow
