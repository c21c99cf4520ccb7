import Mathlib.Order.Monotone.Basic
import Dataflow.Proofs.Memory
import Dataflow.Proofs.Widening

/-! # Budgets of a result

    A compiler has one spill policy, and it is usable however the compiler came
    to it. Every budget of a graph, of a driver or of an input, at a vertex or
    in its thread, carries the limits of this policy and memory that is not
    zero. A driver has one exactly if its node is an operator that asks for
    memory, so that no source and no sink has any.

    Main statements:
    - `Obtained.usable`: the limits of a compiler are usable as numbers
    - `budgets_fullLayout`: the budgets of a task have the limits of the policy
    - `budgets_uniform`: where there are budgets in a result, and which
-/

namespace Dataflow

-- Powers of natural numbers are those of the core library, whatever else is imported.
attribute [local instance (high)] instPowNat

/-! ## Section 1: Limits as numbers -/

/-- The next magnitude stands for a greater number. -/
theorem Format.units_lt_succ (f : Format) (magnitude : Nat) :
    f.units magnitude < f.units (magnitude + 1) := by
  obtain ⟨e, m, hnormal, rfl⟩ := f.exists_join magnitude
  have hpos := Nat.two_pow_pos e
  have hnext : (m + 1) * 2 ^ e = m * 2 ^ e + 2 ^ e := Nat.succ_mul ..
  by_cases hm : m + 1 < 2 ^ (f.fractionBits + 1)
  · have hnormal' : f.Normal e (m + 1) := ⟨hm, hnormal.le.imp_right Nat.le_succ_of_le⟩
    have hjoin : f.join e m + 1 = f.join e (m + 1) := rfl
    rw [hjoin, units_join hnormal, units_join hnormal', hnext]
    omega
  · -- The significand has reached its width and starts over with the next exponent.
    have hlt := hnormal.lt
    have hfull : m + 1 = 2 * 2 ^ f.fractionBits := by
      rw [Nat.pow_succ] at hlt hm
      omega
    have hnormal' : f.Normal (e + 1) (2 ^ f.fractionBits) :=
      ⟨Nat.pow_lt_pow_succ (by decide), .inr (Nat.le_refl _)⟩
    have hjoin : f.join e m + 1 = f.join (e + 1) (2 ^ f.fractionBits) := by
      rw [join, join, Nat.succ_mul]
      omega
    have hvalue : 2 ^ f.fractionBits * 2 ^ (e + 1) = (m + 1) * 2 ^ e := by
      rw [hfull, Nat.pow_succ, Nat.mul_comm (2 ^ e), ← Nat.mul_assoc, Nat.mul_comm _ 2]
    rw [hjoin, units_join hnormal, units_join hnormal', hvalue, hnext]
    omega

/-- Greater magnitudes stand for greater numbers. -/
theorem Format.units_strictMono (f : Format) : StrictMono f.units :=
  strictMono_nat_of_lt_succ f.units_lt_succ

namespace SpillPolicy

/-- At least two runs are merged at once, and the threshold is a number, greater than zero and at
most one. -/
structure Usable (policy : SpillPolicy) : Prop where
  /-- At least two runs are merged. -/
  two_le : 2 ≤ policy.maxFanIn.toNat
  /-- The threshold is a number. -/
  not_nan : policy.threshold.isNaN = false
  /-- It is not negative. -/
  not_negative : policy.threshold.isNegative = false
  /-- It is not zero. -/
  pos : 0 < Format.single.units policy.threshold.magnitude
  /-- It is one at most, which is so many times the smallest positive number. -/
  le_one : Format.single.units policy.threshold.magnitude ≤ 2 ^ Format.single.scale

/-- What the check of a policy lets through is usable. -/
theorem Valid.usable {policy : SpillPolicy} (h : policy.Valid) : policy.Usable := by
  have hzero : (Binary.ofInt 0 : Binary32).key = 0 := by decide +kernel
  have hone : (Binary.ofInt 1 : Binary32).key = 0x3f800000 := by decide +kernel
  have hunits : Format.single.units 0x3f800000 = 2 ^ Format.single.scale := by decide +kernel
  have hpos := h.threshold_pos
  have hle := h.threshold_le_one
  simp only [Binary.lt, Binary.le, hzero, hone, Bool.and_eq_true, Bool.not_eq_true',
    decide_eq_true_eq] at hpos hle
  cases hnegative : policy.threshold.isNegative with
  | true =>
    simp only [Binary.key, hnegative, if_true] at hpos
    omega
  | false =>
    simp only [Binary.key, hnegative, Bool.false_eq_true, if_false] at hpos hle
    have hmono := Format.single.units_strictMono
    have hgreatest : policy.threshold.magnitude ≤ 0x3f800000 := by omega
    exact {
      two_le := h.two_le_maxFanIn
      not_nan := hpos.1.2
      not_negative := hnegative
      pos := Nat.zero_lt_of_lt (hmono (show 0 < policy.threshold.magnitude by omega))
      le_one := hunits ▸ hmono.monotone hgreatest }

end SpillPolicy

/-! ## Section 2: Compilers and their policies -/

namespace Compiler

/-- The ways to come to a compiler, each with its policy. -/
inductive Obtained : Compiler → SpillPolicy → Prop where
  /-- The compiler with the standard limits. -/
  | standard : Obtained .standard {}
  /-- One with given limits, if there is one. -/
  | ofPolicy {policy : SpillPolicy} {c : Compiler} (h : ofPolicy policy = .ok c) : Obtained c policy
  /-- One with the limits of a configuration, if there is one. -/
  | ofConfiguration {settings : Configuration} {c : Compiler} (h : ofConfiguration settings = .ok c) :
    Obtained c (.ofConfiguration settings)

/-- There is a compiler only for a policy without a fault, and it has this policy. -/
theorem ofPolicy_eq_ok_iff {policy : SpillPolicy} {c : Compiler} :
    ofPolicy policy = .ok c ↔ policy.fault? = none ∧ c.policy = policy := by
  unfold ofPolicy
  split
  · rename_i hfault
    obtain ⟨policy', hvalid⟩ := c
    simp [hfault, eq_comm]
  · rename_i fault hfault
    simp [hfault]

variable {c : Compiler} {policy : SpillPolicy}

theorem Obtained.policy_eq (h : Obtained c policy) : c.policy = policy := by
  cases h with
  | standard => rfl
  | ofPolicy h => exact (ofPolicy_eq_ok_iff.mp h).2
  | ofConfiguration h => exact (ofPolicy_eq_ok_iff.mp h).2

/-- However a compiler has been come to, its limits are usable as numbers. -/
theorem Obtained.usable (h : Obtained c policy) : policy.Usable := by
  have hfault : policy.fault? = none := by
    cases h with
    | standard => decide +kernel
    | ofPolicy h => exact (ofPolicy_eq_ok_iff.mp h).1
    | ofConfiguration h => exact (ofPolicy_eq_ok_iff.mp h).1
  exact ((SpillPolicy.fault?_eq_none_iff policy).mp hfault).usable

end Compiler

/-! ## Section 3: Budgets of a task -/

/-- A budget has the limits of a policy, and some memory. -/
structure Budget.Under (policy : SpillPolicy) (b : Budget) : Prop where
  /-- The number of runs that are merged at once. -/
  maxFanIn : b.maxFanIn = policy.maxFanIn
  /-- The part that may be full, bit for bit. -/
  threshold : b.threshold = policy.threshold
  /-- There is memory. -/
  memory : 0 < b.memory

/-- A budget of a task by itself is that of its driver or that of one of its inputs. -/
theorem TaskSettings.mem_budgets {t : TaskSettings} {b : Budget} : b ∈ t.budgets ↔
    t.driverBudget = some b ∨ ∃ i slot, t.inputs.get? i = some slot ∧ slot.budget = some b := by
  rw [budgets, List.mem_append, Option.mem_toList, List.mem_filterMap]
  apply or_congr_right
  constructor
  · rintro ⟨⟨i, slot⟩, hmem, hbudget⟩
    exact ⟨i, slot, (t.inputs.get?_eq_some_iff i slot).mpr hmem, hbudget⟩
  · rintro ⟨i, slot, hslot, hbudget⟩
    exact ⟨(i, slot), (t.inputs.get?_eq_some_iff i slot).mp hslot, hbudget⟩

namespace Plan

open Lowering

variable {p : Plan} {policy : SpillPolicy} {job : JobId}

/-- A driver has a budget exactly if its node is an operator that asks for memory. -/
theorem driverBudget_fullLayout {n : Node} (hn : n ∈ p.entered) (b : Budget) :
    ((p.fullLayout policy).config n).driverBudget = some b ↔
      n.kind.driver?.isSome ∧ 0 < n.memory ∧
        b = { memory := n.memory, maxFanIn := policy.maxFanIn, threshold := policy.threshold } := by
  have hasked : ((p.fullLayout policy).config n).driverBudget =
      n.kind.driver?.bind fun _ => policy.budget? n.memory :=
    (asks_fullLayout policy hn).driverBudget
  rw [hasked]
  cases n.kind.driver? with
  | none => simp
  | some d => simpa using policy.budget?_eq_some_iff n.memory b

/-- The budgets of a task by itself have the limits of the policy. -/
theorem budgets_fullLayout {n : Node} (hn : n ∈ p.entered) :
    ∀ b ∈ ((p.fullLayout policy).config n).budgets, b.Under policy := by
  intro b hb
  rcases TaskSettings.mem_budgets.mp hb with hdriver | ⟨i, slot, hslot, hbudget⟩
  · obtain ⟨-, hpos, rfl⟩ := (driverBudget_fullLayout hn b).mp hdriver
    exact ⟨rfl, rfl, hpos⟩
  · cases hf : p.fuses n with
    | false =>
      rw [inputs_fullLayout policy (p.mem_ownNodes.mpr ⟨hn, hf⟩)] at hslot
      obtain ⟨ch, -, rfl⟩ := Option.map_eq_some_iff.mp hslot
      obtain ⟨hpos, rfl⟩ := ((describedBy_slotOf policy p ch).budget b).mp hbudget
      exact ⟨rfl, rfl, hpos⟩
    | true =>
      -- The slot of a fused task has no budget.
      obtain ⟨ch, producer, h⟩ := p.exists_fused (p.mem_entered.mp hn).1 hf
      have hsole : ((p.fullLayout policy).config n).inputs.get? i = _ := get?_taskIn policy hn h i
      rw [hslot] at hsole
      split at hsole
      · obtain rfl := Option.some.inj hsole
        contradiction
      · contradiction

/-! ## Section 4: Budgets of a result -/

/-- The budgets in a result: which there are, and what they say. -/
structure Budgeted (p : Plan) (policy : SpillPolicy) (r : Compiler.Result) : Prop where
  /-- Every budget of a vertex and of the tasks in its thread has the limits of the policy and some
  memory. -/
  everywhere : ∀ v ∈ r.graph.vertices,
    v.config.Everywhere fun t => ∀ b ∈ t.budgets, b.Under policy
  /-- A node that is reached and no union has a configuration. -/
  reached : ∀ n ∈ p.nodes, n.isUnion = false → p.Reachable n.id → ∃ t, r.config? n.id = some t
  /-- The driver of a node has a budget exactly if the node is an operator that asks for memory, and
  the budget has the size that it asks for. -/
  driver : ∀ n ∈ p.nodes, ∀ t, r.config? n.id = some t → ∀ b, t.driverBudget = some b ↔
    n.kind.driver?.isSome ∧ 0 < n.memory ∧
      b = { memory := n.memory, maxFanIn := policy.maxFanIn, threshold := policy.threshold }
  /-- The configuration of a vertex is that of a node, and the vertex is of the node's kind. -/
  vertex : ∀ v ∈ r.graph.vertices,
    ∃ n ∈ p.nodes, r.config? n.id = some v.config ∧ v.kind = vertexKind n
  /-- The configuration of a task in the thread of a vertex is that of a node, and no other task is in
  its own. -/
  task : ∀ v ∈ r.graph.vertices, ∀ task ∈ v.config.fused,
    (∃ n ∈ p.nodes, r.config? n.id = some task.config) ∧ task.config.fused = []
  /-- The driver of a source or a sink has no budget. -/
  ends : ∀ v ∈ r.graph.vertices, v.kind ≠ .task → v.config.driverBudget = none

theorem mem_fusedNodes_of_guest {id : NodeId} {g : Node} (hg : g ∈ p.guests p.hostSequence id) :
    g ∈ p.fusedNodes :=
  p.mem_fusedNodes.mpr (p.mem_hostSequence.mp (List.mem_filter.mp hg).1)

/-- All budgets in the thread of a vertex have the limits of the policy. -/
theorem everywhere_sharedVertex (lead : Node) {n : Node} (hn : n ∈ p.ownNodes) :
    (p.sharedVertex policy lead n).config.Everywhere fun t => ∀ b ∈ t.budgets, b.Under policy := by
  refine .intro ?_ fun task htask => ?_
  · rw [config_sharedVertex]
    exact budgets_fullLayout (p.mem_ownNodes.mp hn).1
  · rw [fused_sharedVertex] at htask
    obtain ⟨g, hg, rfl⟩ := List.mem_map.mp htask
    have hnone : (taskIn (p.fullLayout policy) g).config.fused = [] := fused_fullLayout g
    have hentered := (p.mem_fusedNodes.mp (mem_fusedNodes_of_guest hg)).1
    refine .intro (budgets_fullLayout hentered) fun task htask => ?_
    rw [hnone] at htask
    contradiction

theorem exists_of_mem_vertices (lead : Node) {v : Vertex}
    (h : v ∈ (p.answer policy job lead).graph.vertices) :
    ∃ n ∈ p.ownNodes, v = p.sharedVertex policy lead n := by
  rw [← Array.mem_toList_iff, vertices_answer] at h
  obtain ⟨n, hn, rfl⟩ := List.mem_map.mp h
  exact ⟨n, hn, rfl⟩

/-- Only a node that is reached has a configuration, with the settings of the layout. -/
theorem settings_of_config? (lead : Node) {n : Node} (hn : n ∈ p.nodes) {t : TaskConfig}
    (h : (p.answer policy job lead).config? n.id = some t) :
    n ∈ p.entered ∧ t.toTaskSettings = ((p.fullLayout policy).config n).toTaskSettings := by
  have hentered : n ∈ p.entered := by
    by_contra hnot
    have hnone : (p.answer policy job lead).config? n.id = none :=
      config?_answer_none lead fun m hm hid =>
        hnot (p.node?_inj (p.mem_entered.mp hm).1 (p.node?_of_mem hn) hid ▸ hm)
    rw [h] at hnone
    contradiction
  obtain ⟨t', ht', hsettings⟩ := config?_answer policy job lead hentered
  obtain rfl := Option.some.inj (h.symm.trans ht')
  exact ⟨hentered, hsettings⟩

theorem driverBudget_answer (lead : Node) {n : Node} (hn : n ∈ p.nodes) {t : TaskConfig}
    (h : (p.answer policy job lead).config? n.id = some t) (b : Budget) : t.driverBudget = some b ↔
      n.kind.driver?.isSome ∧ 0 < n.memory ∧
        b = { memory := n.memory, maxFanIn := policy.maxFanIn, threshold := policy.threshold } := by
  obtain ⟨hentered, hsettings⟩ := settings_of_config? lead hn h
  rw [hsettings]
  exact driverBudget_fullLayout hentered b

/-- A vertex has the configuration of its node and is of the node's kind. -/
theorem exists_config?_of_vertex (lead : Node) {v : Vertex}
    (h : v ∈ (p.answer policy job lead).graph.vertices) : ∃ n ∈ p.nodes,
      (p.answer policy job lead).config? n.id = some v.config ∧ v.kind = vertexKind n := by
  obtain ⟨n, hn, rfl⟩ := exists_of_mem_vertices lead h
  exact ⟨n, mem_nodes_of_entered (p.mem_ownNodes.mp hn).1, config?_own lead hn,
    congrArg VertexPayload.kind (p.payload_sharedVertex policy lead n)⟩

/-- The budgets of the answer are those of its plan, under the limits of the policy. -/
theorem budgeted_answer (policy : SpillPolicy) (job : JobId) (lead : Node) :
    p.Budgeted policy (p.answer policy job lead) := by
  constructor
  case everywhere =>
    intro v hv
    obtain ⟨n, hn, rfl⟩ := exists_of_mem_vertices lead hv
    exact everywhere_sharedVertex lead hn
  case reached =>
    intro n hn hu hreached
    obtain ⟨t, ht, -⟩ := config?_answer policy job lead
      (p.mem_entered.mpr ⟨p.node?_of_mem hn, hu, hreached⟩)
    exact ⟨t, ht⟩
  case driver => exact fun n hn t ht => driverBudget_answer lead hn ht
  case vertex => exact fun v hv => exists_config?_of_vertex lead hv
  case task =>
    intro v hv task htask
    obtain ⟨n, -, rfl⟩ := exists_of_mem_vertices lead hv
    rw [fused_sharedVertex] at htask
    obtain ⟨g, hg, rfl⟩ := List.mem_map.mp htask
    have hfused := mem_fusedNodes_of_guest hg
    exact ⟨⟨g, mem_nodes_of_entered (p.mem_fusedNodes.mp hfused).1, config?_fused lead hfused⟩,
      fused_fullLayout g⟩
  case ends =>
    intro v hv hne
    obtain ⟨n, hn, hconfig, hkind⟩ := exists_config?_of_vertex lead hv
    apply Option.eq_none_iff_forall_ne_some.mpr
    intro b hb
    have hoperator := ((driverBudget_answer lead hn hconfig b).mp hb).1
    -- An operator is neither a source nor a sink.
    rw [hkind, vertexKind] at hne
    cases hk : n.kind <;> simp [hk, Kind.driver?] at hoperator hne

/-- However a compiler has been come to, its limits are those asked for, and they are usable. Every
budget in what it answers has these limits and some memory; the driver of a node has one exactly if
the node is an operator that asks for memory, of the size that it asks for. -/
theorem budgets_uniform {c : Compiler} (hc : c.Obtained policy) {r : Compiler.Result}
    (h : c.compile job p = .ok r) : c.policy = policy ∧ policy.Usable ∧ p.Budgeted policy r := by
  obtain ⟨lead, -, -, rfl⟩ := answer_of_ok h
  refine ⟨hc.policy_eq, hc.usable, ?_⟩
  rw [hc.policy_eq]
  exact budgeted_answer policy job lead

/-- Limits under which the plan that sorts in much memory is to be compiled. -/
def hungrySettings : Configuration :=
  .ofList [(SpillPolicy.maxFanInKey, .string " 16 "), (SpillPolicy.thresholdKey, .string "0.5")]

/-- The sorting has its memory, and so has the formatting in its thread, under these limits. -/
theorem hungry_budgets : ∃ c r sort format, Compiler.ofConfiguration hungrySettings = .ok c ∧
    c.compile .zero hungry = .ok r ∧ r.config? ⟨1⟩ = some sort ∧ r.config? ⟨2⟩ = some format ∧
    sort.driverBudget = some ⟨9223372036854775808, 16, .ofQuotient false 1 2⟩ ∧
    format.driverBudget = some ⟨512, 16, .ofQuotient false 1 2⟩ := by
  have hpolicy : SpillPolicy.ofConfiguration hungrySettings = ⟨16, .ofQuotient false 1 2⟩ := by
    decide +kernel
  have hfault : (SpillPolicy.ofConfiguration hungrySettings).fault? = none := by decide +kernel
  obtain ⟨c, hc⟩ : ∃ c, Compiler.ofConfiguration hungrySettings = .ok c :=
    ⟨⟨_, (SpillPolicy.fault?_eq_none_iff _).mp hfault⟩,
      Compiler.ofPolicy_eq_ok_iff.mpr ⟨hfault, rfl⟩⟩
  obtain ⟨r, hr⟩ := hungry_compiles c .zero
  obtain ⟨-, -, hbudgets⟩ := budgets_uniform (.ofConfiguration hc) hr
  rw [hpolicy] at hbudgets
  have hsort : hungry.nodes[1] ∈ hungry.entered := of_decide_eq_true (by cbv)
  have hformat : hungry.nodes[2] ∈ hungry.entered := of_decide_eq_true (by cbv)
  obtain ⟨sort, hsort⟩ := hbudgets.reached _ (mem_nodes_of_entered hsort) rfl
    (hungry.mem_entered.mp hsort).2.2
  obtain ⟨format, hformat⟩ := hbudgets.reached _ (mem_nodes_of_entered hformat) rfl
    (hungry.mem_entered.mp hformat).2.2
  exact ⟨c, r, sort, format, hc, hr, hsort, hformat,
    (hbudgets.driver _ (Array.getElem_mem _) sort hsort _).mpr ⟨rfl, by decide, rfl⟩,
    (hbudgets.driver _ (Array.getElem_mem _) format hformat _).mpr ⟨rfl, by decide, rfl⟩⟩

end Plan

end Dataflow
