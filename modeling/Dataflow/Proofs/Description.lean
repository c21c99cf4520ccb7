import Dataflow.Proofs.Eligibility
import Dataflow.Proofs.Serializers

/-! # What an input slot says

    A slot of a vertex is described once, by the channel on the consumer's own
    side, however many branches are wired into it and whatever they carry. What
    the channel does not ask for is absent, for a slot starts out empty and
    nothing else writes to it but the count of its wires. A fused task reads its
    records from the task before it and only needs to know how they are written.

    Main statement:
    - `slots_described`: what each slot of a result says
-/

namespace Dataflow

/-! ## Section 1: Descriptions -/

/-- A slot says what a channel asks for, under the limits of a policy, and nothing more. -/
structure InputSlot.DescribedBy (slot : InputSlot) (policy : SpillPolicy) (ch : Plan.Channel) :
    Prop where
  /-- It is serialized as the channel is. -/
  serializer : slot.serializer = some ch.serializer
  /-- If it is to be prepared, it is prepared as the channel says. -/
  prepared : ch.localStrategy ≠ .nothing →
    slot.localStrategy = some ch.localStrategy ∧ slot.comparator = ch.localComparator
  /-- If it is not to be prepared, nothing is said about preparation. -/
  unprepared : ch.localStrategy = .nothing → slot.localStrategy = none ∧ slot.comparator = none
  /-- Memory for preparation comes with the limits of the policy; zero bytes are no memory. -/
  budget : ∀ b, slot.budget = some b ↔ 0 < ch.localMemory ∧
    b = { memory := ch.localMemory, maxFanIn := policy.maxFanIn, threshold := policy.threshold }
  /-- It is held back exactly if the buffer breaks the pipeline. -/
  dammed : slot.dammed = ch.tempMode.breaksPipeline
  /-- It can be read again exactly if the buffer keeps the records. -/
  replayable : slot.replayable = ch.tempMode.isReplayable
  /-- It has memory for a buffer exactly if there is one. -/
  damMemory : ∀ m, slot.damMemory = some m ↔ ch.tempMode ≠ .nothing ∧ m = ch.tempMemory

/-- Memory comes with the limits of the policy, and zero bytes are no memory. -/
theorem SpillPolicy.budget?_eq_some_iff (policy : SpillPolicy) (memory : UInt64) (b : Budget) :
    policy.budget? memory = some b ↔ 0 < memory ∧
      b = { memory, maxFanIn := policy.maxFanIn, threshold := policy.threshold } := by
  unfold budget?
  by_cases h : memory = 0
  · simp [h]
  · rw [if_neg h, Option.some.injEq]
    constructor
    · rintro rfl
      exact ⟨UInt64.pos_iff_ne_zero.mpr h, rfl⟩
    · rintro ⟨-, rfl⟩
      rfl

namespace Plan

open Lowering

/-- The slots of a result: those of a vertex are described by the input channels of its node, and the
only slot of a fused task says how its channel is serialized. -/
structure Described (p : Plan) (policy : SpillPolicy) (r : Compiler.Result) : Prop where
  /-- A vertex has a slot for each input of its node, described by the input's channel, and no other. -/
  vertex : ∀ n ∈ p.nodes, ∀ t, r.report.placement? n.id = some (.vertex t) →
    ∃ v, r.graph.vertex? t = some v ∧ v.config.inputs.keys = List.range n.inputs.length ∧
      ∀ i c, n.inputs[i]? = some c → ∃ ch slot, p.channel? c = some ch ∧
        v.config.inputs.get? i = some slot ∧ slot.DescribedBy policy ch
  /-- A fused task has one slot. It says how the channel is serialized, and nothing more. -/
  task : ∀ n ∈ p.nodes, ∀ place, r.report.placement? n.id = some (.chained place) →
    ∃ v t c ch, r.graph.vertex? place.host = some v ∧ v.config.fused[place.position]? = some t ∧
      n.inputs = [c] ∧ p.channel? c = some ch ∧ ∀ i, t.config.inputs.get? i =
        if i = 0 then some { wires := 0, serializer := some ch.serializer } else none

variable {p : Plan} {policy : SpillPolicy} {job : JobId}

/-! ## Section 2: Slots of a result -/

/-- A slot that starts out empty says what its channel asks for. -/
theorem describedBy_slotOf (policy : SpillPolicy) (p : Plan) (ch : Channel) :
    (slotOf policy p ch).DescribedBy policy ch where
  serializer := rfl
  prepared h := by simp [slotOf, InputSlot.describe, h]
  unprepared h := by simp [slotOf, InputSlot.describe, h]
  budget b := by
    have hbudget : (slotOf policy p ch).budget = policy.budget? ch.localMemory := by
      simp [slotOf, InputSlot.describe]
    rw [hbudget]
    exact policy.budget?_eq_some_iff ch.localMemory b
  dammed := Bool.false_or _
  replayable := Bool.false_or _
  damMemory m := by
    by_cases h : ch.tempMode = .nothing
    · simp [slotOf, InputSlot.describe, h]
    · simp [slotOf, InputSlot.describe, h, eq_comm]

theorem get?_taskIn (policy : SpillPolicy) {n : Node} (hn : n ∈ p.entered) {ch : Channel}
    {producer : Node} (h : p.Fused n ch producer) (i : Nat) :
    (taskIn (p.fullLayout policy) n).config.inputs.get? i =
      if i = 0 then some { wires := 0, serializer := some ch.serializer } else none := by
  show ((p.fullLayout policy).config n).inputs.get? i = _
  rw [inputs_of_fused policy hn h, get?_update]
  by_cases hi : 0 = i
  · rw [if_pos hi, if_pos hi.symm]
    rfl
  · rw [if_neg hi, if_neg (Ne.symm hi)]
    rfl

/-- The slots of the answer are described by the channels of the plan. -/
theorem described_answer (policy : SpillPolicy) (job : JobId) (lead : Node)
    (hfault : p.schedule.findSome? p.callbackFault? = none) :
    p.Described policy (p.answer policy job lead) := by
  have hr : p.Places (p.answer policy job lead).report := places_answer lead
  constructor
  case vertex =>
    intro n hn t ht
    have hnode := p.node?_of_mem hn
    obtain ⟨hown, rfl⟩ := (hr.vertex_iff hnode t).mp ht
    refine ⟨p.sharedVertex policy lead n, vertex?_answer lead hown, ?_, fun i d hi => ?_⟩
    · rw [config_sharedVertex]
      exact keys_fullLayout hown
    · obtain ⟨ch, hch, -⟩ := p.exists_channel hnode (List.mem_of_getElem? hi)
      exact ⟨ch, slotOf policy p ch, hch, slot_sharedVertex policy lead hown hi hch,
        describedBy_slotOf policy p ch⟩
  case task =>
    intro n hn place hplace
    obtain ⟨hfused, rfl⟩ := (hr.chained_iff (p.node?_of_mem hn) place).mp hplace
    obtain ⟨d, ch, producer, hinputs, hch, hf, -⟩ := exists_sole hfault hfused
    obtain ⟨v, hv, ht⟩ := task_answer lead hfused
    exact ⟨v, _, d, ch, hv, ht, hinputs, hch, get?_taskIn policy (p.mem_fusedNodes.mp hfused).1 hf⟩

/-- In a result every slot of a vertex says what the channel of its input asks for, and the slot of a
fused task how its channel is serialized. There are no other slots, and they say nothing else. -/
theorem slots_described {c : Compiler} {r : Compiler.Result} (h : c.compile job p = .ok r) :
    p.Described c.policy r := by
  obtain ⟨lead, hfault, -, rfl⟩ := answer_of_ok h
  exact described_answer c.policy job lead hfault

/-- In the plan that joins two sources the counting reads words in one slot, without a buffer. -/
theorem wordCount_described : ∃ r t v slot, Compiler.standard.compile .zero wordCount = .ok r ∧
    wordCount.Described Compiler.standard.policy r ∧
    r.report.placement? ⟨3⟩ = some (.vertex t) ∧ r.graph.vertex? t = some v ∧
    v.config.inputs.get? 0 = some slot ∧ slot.serializer = some ⟨"Word", .empty⟩ ∧
    slot.damMemory = none := by
  obtain ⟨r, hr⟩ := wordCount_compiles .standard .zero
  have hdescribed := slots_described hr
  obtain ⟨t, ht⟩ : ∃ t, r.report.placement? ⟨3⟩ = some (.vertex t) := by
    obtain ⟨lead, -, -, rfl⟩ := answer_of_ok hr
    have hown : wordCount.nodes[3] ∈ wordCount.ownNodes := of_decide_eq_true (by cbv)
    exact ⟨_, ((places_answer lead).of_own hown).2⟩
  obtain ⟨v, hv, -, hslots⟩ := hdescribed.vertex wordCount.nodes[3] (Array.getElem_mem _) t ht
  obtain ⟨ch, slot, hch, hslot, hd⟩ := hslots 0 ⟨2⟩ rfl
  obtain rfl : wordCount.channels[2] = ch := Option.some.inj hch
  refine ⟨r, t, v, slot, hr, hdescribed, ht, hv, hslot, hd.serializer, ?_⟩
  apply Option.eq_none_iff_forall_ne_some.mpr
  intro m hm
  exact ((hd.damMemory m).mp hm).1 rfl

end Plan

end Dataflow
