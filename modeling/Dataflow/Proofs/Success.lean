import Dataflow.Proofs.Built
import Dataflow.Proofs.Errors

/-! # When a built plan compiles

    What is left to fail in a built plan are its branches: two of one input that
    are serialized differently, and ones with no wire. A fused node never wires
    its input, but its input can always be wired.

    Main statement:
    - `build_compiles_iff`: a built plan compiles exactly if all its inputs can
      be wired, and otherwise the error is for the first one that cannot
-/

namespace Dataflow

namespace Plan

open Lowering

/-! ## Section 1: Inputs that can be wired -/

/-- The ship strategies that have a wire. -/
def wiredStrategies : List ShipStrategy :=
  [.forward, .partitionLocalHash, .partitionRandom, .broadcast, .partitionHash]

/-- The branches of an input are serialized alike. -/
def Agree (branches : List Channel) : Prop :=
  ∀ b ∈ branches, ∀ b' ∈ branches, b.serializer = b'.serializer

/-- The branches of an input are serialized alike, and each has a ship strategy with a wire. -/
def Wirable (branches : List Channel) : Prop :=
  Agree branches ∧ ∀ b ∈ branches, b.ship ∈ wiredStrategies

/-- What is wrong with the branches of an input: the first one that is serialized differently from the
first of all, and if there is none the first one that has no wire. -/
inductive Objection (branches : List Channel) : StepError → Prop where
  /-- Two branches disagree. -/
  | mismatch {first b : Channel} {rest : List Channel} (hbranches : branches = first :: rest)
      (hb : rest.find? (fun b => b.serializer ≠ first.serializer) = some b) :
      Objection branches (.serializerMismatch first.serializer b.serializer)
  /-- The first branch without a wire is to be routed by ranges of keys. -/
  | range {b : Channel} (hagree : Agree branches)
      (hb : branches.find? (fun b => b.ship ∉ wiredStrategies) = some b)
      (hship : b.ship = .partitionRange) : Objection branches (.unsupported .rangePartitioning)
  /-- The first branch without a wire has no ship strategy. -/
  | unset {b : Channel} (hagree : Agree branches)
      (hb : branches.find? (fun b => b.ship ∉ wiredStrategies) = some b)
      (hship : b.ship = .unset) : Objection branches (.violation .unsetShipStrategy)

theorem serializerConflict?_eq_none_iff (branches : List Channel) :
    serializerConflict? branches = none ↔ Agree branches := by
  cases branches with
  | nil => simp [serializerConflict?, Agree]
  | cons first rest =>
    simp only [serializerConflict?, Option.map_eq_none_iff, List.find?_eq_none, Agree]
    constructor
    · intro h
      have hfirst : ∀ b ∈ first :: rest, b.serializer = first.serializer := by
        intro b hb
        rcases List.mem_cons.mp hb with rfl | hb
        · rfl
        · simpa using h b hb
      exact fun b hb b' hb' => (hfirst b hb).trans (hfirst b' hb').symm
    · intro h b hb
      simpa using h b (List.mem_cons_of_mem _ hb) first (List.mem_cons_self ..)

theorem shipFault?_eq_none_iff (b : Channel) : shipFault? b = none ↔ b.ship ∈ wiredStrategies := by
  cases h : b.ship <;> simp [shipFault?, h, ShipStrategy.wire, wiredStrategies]

/-- The first fault of a ship strategy is that of the first branch without a wire. -/
theorem findSome?_shipFault? (branches : List Channel) : branches.findSome? shipFault? =
    (branches.find? fun b => b.ship ∉ wiredStrategies).bind shipFault? := by
  induction branches with
  | nil => rfl
  | cons b rest ih =>
    rw [List.findSome?_cons, List.find?_cons]
    by_cases hb : b.ship ∈ wiredStrategies
    · simp [(shipFault?_eq_none_iff b).mpr hb, hb, ih]
    · obtain ⟨e, he⟩ := Option.ne_none_iff_exists'.mp fun h => hb ((shipFault?_eq_none_iff b).mp h)
      simp [he, hb]

variable {p : Plan} {n : Node}

/-- An input with branches has no fault exactly if it can be wired. -/
theorem slotFault?_eq_none_iff {slot : ChannelId × Nat} (hne : p.branchesOf slot.1 ≠ []) :
    p.slotFault? n slot = none ↔ Wirable (p.branchesOf slot.1) := by
  rw [slotFault?, if_neg hne, Option.or_eq_none_iff, serializerConflict?_eq_none_iff,
    List.findSome?_eq_none_iff, Wirable]
  simp only [shipFault?_eq_none_iff]

/-- The fault of an input with branches is the objection to them. -/
theorem slotFault?_objection {slot : ChannelId × Nat} (hne : p.branchesOf slot.1 ≠ [])
    {e : StepError} (h : p.slotFault? n slot = some e) : Objection (p.branchesOf slot.1) e := by
  rw [slotFault?, if_neg hne] at h
  rcases Option.or_eq_some_iff.mp h with hconflict | ⟨hnone, hship⟩
  · obtain ⟨first, rest, b, hbranches, hb, rfl⟩ := serializerConflict?_cases hconflict
    exact .mismatch hbranches hb
  · have hagree := (serializerConflict?_eq_none_iff _).mp hnone
    rw [findSome?_shipFault?] at hship
    obtain ⟨b, hb, hfault⟩ := Option.bind_eq_some_iff.mp hship
    rcases shipFault?_cases hfault with ⟨hrange, rfl⟩ | ⟨hunset, rfl⟩
    · exact .range hagree hb hrange
    · exact .unset hagree hb hunset

/-! ## Section 2: Nodes of built plans -/

section
variable (h : p.Built)
include h

theorem branchesOf_ne_nil (hn : p.node? n.id = some n) {c : ChannelId} (hc : c ∈ n.inputs) :
    p.branchesOf c ≠ [] := by
  obtain ⟨ch, hch, -⟩ := p.exists_channel hn hc
  simpa [branchesOf, hch] using flat_ne_nil h hch

/-- The input of a fused node can be wired, though it never is. -/
theorem wirable_of_fuses (hn : p.node? n.id = some n) (hf : p.fuses n = true) {c : ChannelId}
    (hc : c ∈ n.inputs) : Wirable (p.branchesOf c) := by
  obtain ⟨ch, producer, hfused⟩ := p.exists_fused hn hf
  obtain ⟨d, rest, hinputs, hch⟩ := hfused.input
  obtain ⟨driver, comparator, text, hkind, -⟩ := hfused.driver
  have hlength := h.inputCount n (Array.mem_of_getElem? hn) 1 (by simp [hkind, Kind.inputCount?])
  obtain rfl : rest = [] := by simpa [hinputs] using hlength
  obtain rfl : c = d := by simpa [hinputs] using hc
  -- Its only input has one branch, which is forwarded.
  have hbranches := p.branchesOf_of_not_union hch hfused.source hfused.not_union
  rw [hbranches]
  refine ⟨fun b hb b' hb' => ?_, fun b hb => ?_⟩
  · rw [List.mem_singleton.mp hb, List.mem_singleton.mp hb']
  · rw [List.mem_singleton.mp hb, hfused.ship]
    exact List.mem_cons_self ..

/-- Leaving a node of a built plan has no fault exactly if all its inputs can be wired. -/
theorem leaveFault?_eq_none_iff (hn : p.node? n.id = some n) :
    p.leaveFault? n = none ↔ ∀ c ∈ n.inputs, Wirable (p.branchesOf c) := by
  cases hf : p.fuses n with
  | true =>
    obtain ⟨ch, producer, hfused⟩ := p.exists_fused hn hf
    obtain ⟨driver, comparator, text, hkind, -⟩ := hfused.driver
    have hlength := h.inputCount n (Array.mem_of_getElem? hn) 1 (by simp [hkind, Kind.inputCount?])
    simp only [leaveFault?, hf, if_true, hlength, true_iff]
    exact fun c hc => wirable_of_fuses h hn hf hc
  | false =>
    simp only [leaveFault?, hf, Bool.false_eq_true, if_false, List.findSome?_eq_none_iff]
    constructor
    · intro hnone c hc
      obtain ⟨i, hi⟩ := List.mem_iff_getElem?.mp hc
      have hslot := hnone (c, i) (List.mem_zipIdx_iff_getElem?.mpr hi)
      exact (slotFault?_eq_none_iff (branchesOf_ne_nil h hn hc)).mp hslot
    · intro hall slot hslot
      have hc := List.fst_mem_of_mem_zipIdx hslot
      exact (slotFault?_eq_none_iff (branchesOf_ne_nil h hn hc)).mpr (hall slot.1 hc)

/-- The fault of leaving a node of a built plan is the objection to its first input that cannot be
wired. -/
theorem leaveFault?_first (hn : p.node? n.id = some n) {e : StepError}
    (hfault : p.leaveFault? n = some e) : ∃ before input after,
      n.inputs = before ++ input :: after ∧ (∀ c ∈ before, Wirable (p.branchesOf c)) ∧
        ¬ Wirable (p.branchesOf input) ∧ Objection (p.branchesOf input) e := by
  have hf : p.fuses n = false := by
    by_contra hf
    have hall : ∀ c ∈ n.inputs, Wirable (p.branchesOf c) := by
      intro c hc
      exact wirable_of_fuses h hn (by simpa using hf) hc
    simp [(leaveFault?_eq_none_iff h hn).mpr hall] at hfault
  simp only [leaveFault?, hf, Bool.false_eq_true, if_false] at hfault
  obtain ⟨before, slot, after, hsplit, hslot, hbefore⟩ := List.findSome?_eq_some_iff.mp hfault
  have hinputs : n.inputs = before.map Prod.fst ++ slot.1 :: after.map Prod.fst := by
    rw [← List.zipIdx_map_fst 0 n.inputs, hsplit]
    simp
  have hne : ∀ c ∈ n.inputs, p.branchesOf c ≠ [] := fun c hc => branchesOf_ne_nil h hn hc
  have hinput := hne slot.1 (by simp [hinputs])
  refine ⟨_, _, _, hinputs, fun c hc => ?_, fun hwirable => ?_, slotFault?_objection hinput hslot⟩
  · obtain ⟨slot', hslot', rfl⟩ := List.mem_map.mp hc
    refine (slotFault?_eq_none_iff (hne slot'.1 ?_)).mp (hbefore slot' hslot')
    rw [hinputs]
    exact List.mem_append_left _ hc
  · simp [(slotFault?_eq_none_iff hinput).mpr hwirable] at hslot

end

/-! ## Section 3: When a built plan compiles -/

/-- When entering has no fault, the first fault is that of the first node with one in the order of
leaving. -/
theorem findSome?_callbackFault? {done : List Callback}
    (h : ∀ cb ∈ done, p.enterFault? cb.node = none) :
    done.findSome? p.callbackFault? = (done.filterMap Callback.left?).findSome? fun n =>
      (p.leaveFault? n).map (.step n.display n.id .wire) := by
  induction done with
  | nil => rfl
  | cons cb rest ih =>
    have ih := ih fun cb hcb => h cb (List.mem_cons_of_mem _ hcb)
    have hcb := h cb (List.mem_cons_self ..)
    rw [List.findSome?_cons, ih]
    cases cb with
    | enter n =>
      have hnone : p.callbackFault? (.enter n) = none := Option.map_eq_none_iff.mpr hcb
      rw [hnone]
      rfl
    | leave n => rfl

/-- An error for the first node, in the order of leaving, with an input that cannot be wired, and for
the first such input of it. -/
inductive FirstObjection (p : Plan) : CompileError → Prop where
  /-- All inputs of earlier nodes and all inputs before it can be wired, but it cannot. -/
  | wire {n : Node} {input : ChannelId} {cause : StepError} {earlier later : List Node}
      {before after : List ChannelId} (hleft : p.visits.left = earlier ++ n :: later)
      (hearlier : ∀ m ∈ earlier, ∀ c ∈ m.inputs, Wirable (p.branchesOf c))
      (hinputs : n.inputs = before ++ input :: after)
      (hbefore : ∀ c ∈ before, Wirable (p.branchesOf c))
      (hinput : ¬ Wirable (p.branchesOf input)) (hcause : Objection (p.branchesOf input) cause) :
      FirstObjection p (.step n.display n.id .wire cause)

section
variable (h : p.Built) (hown : p.ownNodes ≠ [])
include h hown

theorem compile_ok_iff_wirable (c : Compiler) (job : JobId) : (∃ r, c.compile job p = .ok r) ↔
    ∀ n ∈ p.nodes, n.isUnion = false → p.Reachable n.id →
      ∀ input ∈ n.inputs, Wirable (p.branchesOf input) := by
  rw [compile_ok_iff]
  constructor
  · rintro ⟨hfault, -⟩ n hn hu hreach
    have hnode := p.node?_of_mem hn
    have hentered := p.mem_entered.mpr ⟨hnode, hu, hreach⟩
    exact (leaveFault?_eq_none_iff h hnode).mp (hfault n hentered).2
  · intro hall
    refine ⟨?_, hown⟩
    intro n hn
    obtain ⟨hnode, hu, hreach⟩ := p.mem_entered.mp hn
    have hwirable := hall n (Array.mem_of_getElem? hnode) hu hreach
    exact ⟨enterFault?_eq_none h hnode, (leaveFault?_eq_none_iff h hnode).mpr hwirable⟩

theorem firstObjection_of_error {c : Compiler} {job : JobId} {e : CompileError}
    (he : c.compile job p = .error e) : p.FirstObjection e := by
  -- Entering never fails, so the first fault is that of the first node with one that is left.
  have henter : ∀ cb ∈ p.schedule, p.enterFault? cb.node = none := by
    intro cb hcb
    exact enterFault?_eq_none h (p.mem_schedule.mp hcb).1
  have hnode : ∀ n ∈ p.left, p.node? n.id = some n := fun n hn => (p.mem_left.mp hn).1
  have hfaults := findSome?_callbackFault? henter
  rw [compile_eq] at he
  cases hfault : p.schedule.findSome? p.callbackFault? with
  | none =>
    obtain ⟨lead, hlead⟩ := Option.ne_none_iff_exists'.mp
      fun hnone => hown ((leading_eq_none_iff _).mp hnone)
    simp [hfault, hlead] at he
  | some e' =>
    obtain rfl : e' = e := by simpa [hfault] using he
    obtain ⟨earlier, n, later, hsplit, hn, hearlier⟩ :=
      List.findSome?_eq_some_iff.mp (hfaults.symm.trans hfault)
    have hsplit : p.left = earlier ++ n :: later := hsplit
    obtain ⟨cause, hcause, rfl⟩ := Option.map_eq_some_iff.mp hn
    obtain ⟨before, input, after, hinputs, hbefore, hinput, hobjection⟩ :=
      leaveFault?_first h (hnode n (by simp [hsplit])) hcause
    have hleft : p.visits.left = earlier ++ n :: later := by
      rw [visits_eq]
      exact hsplit
    have hwirable : ∀ m ∈ earlier, ∀ c ∈ m.inputs, Wirable (p.branchesOf c) := by
      intro m hm
      apply (leaveFault?_eq_none_iff h (hnode m (by simp [hsplit, hm]))).mp
      exact Option.map_eq_none_iff.mp (hearlier m hm)
    exact .wire hleft hwirable hinputs hbefore hinput hobjection

end

/-- A built plan with nodes compiles exactly if every input of every node that is reached and no union
can be wired. Otherwise the error is for the first such node in the order of leaving, and for its
first input that cannot be wired. -/
theorem build_compiles_iff {b : Builder} (hb : b.build = .ok p) (hpos : 0 < p.nodes.size)
    (c : Compiler) (job : JobId) :
    ((∃ r, c.compile job p = .ok r) ↔ ∀ n ∈ p.nodes, n.isUnion = false → p.Reachable n.id →
      ∀ input ∈ n.inputs, Wirable (p.branchesOf input)) ∧
    ∀ e, c.compile job p = .error e → p.FirstObjection e := by
  have h := built_of_build hb
  have hown := ownNodes_ne_nil h hpos
  constructor
  · exact compile_ok_iff_wirable h hown c job
  · intro e he
    exact firstObjection_of_error h hown he

/-- The plan that joins two sources is built and compiles, for its inputs can be wired. -/
theorem wordCount_wirable : wordCountBuilder.build = .ok wordCount ∧ 0 < wordCount.nodes.size ∧
    ∀ n ∈ wordCount.nodes, n.isUnion = false → wordCount.Reachable n.id →
      ∀ input ∈ n.inputs, Wirable (wordCount.branchesOf input) := by
  have hpos : 0 < wordCount.nodes.size := by decide
  refine ⟨wordCount_built, hpos, ?_⟩
  exact (build_compiles_iff wordCount_built hpos .standard .zero).1.mp (wordCount_compiles _ _)

end Plan

end Dataflow
