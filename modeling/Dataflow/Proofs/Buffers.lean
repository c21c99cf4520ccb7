import Mathlib.Tactic.FinCases
import Dataflow.Proofs.Description

/-! # Buffers

    A channel may ask for its records to be buffered, to break a pipeline or to
    be read again. The slot of a vertex has the buffer of its channel. What is
    looked at when a node is fused with its producer says nothing of buffers, and
    the slot of a fused task has none. So a result has all the buffers that are
    asked for exactly if fused tasks are asked for none, and a built plan may ask
    for one there.

    Main statements:
    - `buffered_iff`: when a result has all buffers
    - `cached_unbuffered`: a built plan that compiles and loses one
-/

namespace Dataflow

/-! ## Section 1: Slots with their buffers -/

/-- A slot has the buffer that a channel asks for. -/
structure InputSlot.Buffers (slot : InputSlot) (ch : Plan.Channel) : Prop where
  /-- It is held back exactly if the buffer breaks the pipeline. -/
  dammed : slot.dammed = ch.tempMode.breaksPipeline
  /-- It can be read again exactly if the buffer keeps the records. -/
  replayable : slot.replayable = ch.tempMode.isReplayable
  /-- It has the memory of the buffer, if there is one. -/
  damMemory : slot.damMemory = if ch.tempMode = .nothing then none else some ch.tempMemory

/-- A slot that is described by a channel has its buffer. -/
theorem InputSlot.DescribedBy.buffers {slot : InputSlot} {policy : SpillPolicy} {ch : Plan.Channel}
    (h : slot.DescribedBy policy ch) : slot.Buffers ch where
  dammed := h.dammed
  replayable := h.replayable
  damMemory := by
    apply Option.ext
    intro m
    rw [h.damMemory m]
    by_cases hmode : ch.tempMode = .nothing <;> simp [hmode, eq_comm]

/-- A slot that only says how its records are serialized has the buffer of a channel exactly if the
channel asks for none. -/
theorem InputSlot.buffers_plain_iff (serializer : Serializer) (ch : Plan.Channel) :
    ({ serializer := some serializer } : InputSlot).Buffers ch ↔ ch.tempMode = .nothing := by
  constructor
  · intro h
    by_contra hmode
    have hmemory := h.damMemory
    rw [if_neg hmode] at hmemory
    simp at hmemory
  · intro hmode
    constructor <;> simp [hmode, TempMode.breaksPipeline, TempMode.isReplayable]

namespace Plan

open Lowering

/-- Every slot of a result has the buffer that its channel asks for, in vertices and in fused tasks. -/
def Buffered (p : Plan) (r : Compiler.Result) : Prop :=
  ∀ n ∈ p.nodes, ∀ t, r.config? n.id = some t → ∀ i c, n.inputs[i]? = some c →
    ∃ ch slot, p.channel? c = some ch ∧ t.inputs.get? i = some slot ∧ slot.Buffers ch

/-- No channel to a fused task asks for a buffer. -/
def FusedUnbuffered (p : Plan) (r : Compiler.Result) : Prop :=
  ∀ n ∈ p.nodes, ∀ place, r.report.placement? n.id = some (.chained place) →
    ∀ c ∈ n.inputs, ∀ ch, p.channel? c = some ch → ch.tempMode = .nothing

variable {p : Plan} {policy : SpillPolicy} {job : JobId}

/-! ## Section 2: When all buffers are there -/

/-- In a result a fused task has the buffer of its input exactly if none is asked for. -/
theorem Described.task_buffers_iff {r : Compiler.Result} (h : p.Described policy r) {n : Node}
    (hn : n ∈ p.nodes) {place : Place} (hplace : r.report.placement? n.id = some (.chained place)) :
    ∃ t c ch slot, r.config? n.id = some t ∧ n.inputs = [c] ∧ p.channel? c = some ch ∧
      t.inputs.get? 0 = some slot ∧ (slot.Buffers ch ↔ ch.tempMode = .nothing) := by
  obtain ⟨v, t, c, ch, hv, ht, hinputs, hch, hslots⟩ := h.task n hn place hplace
  refine ⟨t.config, c, ch, _, ?_, hinputs, hch, hslots 0, InputSlot.buffers_plain_iff _ ch⟩
  simp [Compiler.Result.config?, hplace, hv, ht]

/-- Where slots are described by their channels, all buffers are there exactly if no fused task is
asked for one. -/
theorem Described.buffered {r : Compiler.Result} (hdescribed : p.Described policy r) :
    p.Buffered r ↔ p.FusedUnbuffered r := by
  constructor
  · intro hbuffered n hn place hplace d hd ch hch
    obtain ⟨t, c, ch', slot, ht, hinputs, hch', hslot, hiff⟩ :=
      hdescribed.task_buffers_iff hn hplace
    obtain rfl : d = c := by simpa [hinputs] using hd
    obtain ⟨ch'', slot', hch'', hslot', hbuffers⟩ := hbuffered n hn t ht 0 d (by simp [hinputs])
    obtain rfl := Option.some.inj (hch'.symm.trans hch)
    obtain rfl := Option.some.inj (hch''.symm.trans hch)
    obtain rfl := Option.some.inj (hslot'.symm.trans hslot)
    exact hiff.mp hbuffers
  · intro hunbuffered n hn t ht i d hi
    cases hplace : r.report.placement? n.id with
    | none => simp [Compiler.Result.config?, hplace] at ht
    | some placement =>
      cases placement with
      | spliced => simp [Compiler.Result.config?, hplace] at ht
      | vertex id =>
        obtain ⟨v, hv, -, hslots⟩ := hdescribed.vertex n hn id hplace
        obtain ⟨ch, slot, hch, hslot, hdescribes⟩ := hslots i d hi
        obtain rfl : v.config = t := by simpa [Compiler.Result.config?, hplace, hv] using ht
        exact ⟨ch, slot, hch, hslot, hdescribes.buffers⟩
      | chained place =>
        obtain ⟨t', c, ch, slot, ht', hinputs, hch, hslot, hiff⟩ :=
          hdescribed.task_buffers_iff hn hplace
        obtain rfl := Option.some.inj (ht'.symm.trans ht)
        -- There is only one input.
        obtain ⟨rfl, rfl⟩ : i = 0 ∧ c = d := by
          rw [hinputs, List.getElem?_singleton] at hi
          split at hi
          · rename_i hzero
            exact ⟨hzero, Option.some.inj hi⟩
          · simp at hi
        exact ⟨ch, slot, hch, hslot, hiff.mpr (hunbuffered n hn place hplace c (by simp [hinputs])
          ch hch)⟩

/-- A result has all the buffers that are asked for exactly if no fused task is asked for one. -/
theorem buffered_iff {c : Compiler} {r : Compiler.Result} (h : c.compile job p = .ok r) :
    p.Buffered r ↔ p.FusedUnbuffered r := by
  obtain ⟨lead, hfault, -, rfl⟩ := answer_of_ok h
  exact (described_answer c.policy job lead hfault).buffered

/-- In the plan that joins two sources no buffer is asked for, and none is missing. -/
theorem wordCount_buffered : ∃ r, Compiler.standard.compile .zero wordCount = .ok r ∧
    wordCount.Buffered r := by
  obtain ⟨r, hr⟩ := wordCount_compiles .standard .zero
  refine ⟨r, hr, (buffered_iff hr).mpr ?_⟩
  intro n _ place _ c _ ch hch
  have hmem : ch ∈ wordCount.channels.toList := Array.mem_toList_iff.mpr (Array.mem_of_getElem? hch)
  fin_cases hmem <;> rfl

/-! ## Section 3: A buffer that is lost -/

/-- Lines are read, trimmed and written. What is read is to be held back and kept for the trimming. -/
def cachedCalls : List Builder.Call :=
  let forward : Shipment := { ship := .forward, serializer := ⟨"Line", .empty⟩ }
  [.add { name := "read", kind := .source ⟨"Line", .empty⟩ },
    .add { name := "trim", kind := .singleInput .map none },
    .add { name := "write", kind := .sink },
    .connect ⟨0⟩ ⟨1⟩ { forward with tempMode := .cachingPipelineBreaker, tempMemory := 512 },
    .connect ⟨1⟩ ⟨2⟩ forward]

/-- The parts that the calls make, with the sink. -/
def cachedParts : Parts := { ((Builder.new "cached").after cachedCalls).parts with sinks := [⟨2⟩] }

theorem cached_consistent : cachedParts.Consistent :=
  cachedParts.inconsistency?_eq_none_iff.mp (by decide)

theorem cached_listing : cachedParts.listing = .ok [⟨2⟩, ⟨1⟩, ⟨0⟩] := by cbv

/-- The plan of these parts. -/
def cached : Plan :=
  { cachedParts with
    consistent := cached_consistent
    acyclic := Parts.acyclic_of_listing cached_consistent cached_listing }

theorem cached_built : ((Builder.new "cached").after cachedCalls).build = .ok cached :=
  cached.ofParts_toParts cached_listing

theorem cached_compiles (c : Compiler) (job : JobId) : ∃ r, c.compile job cached = .ok r := by
  have hfault : cached.schedule.findSome? cached.callbackFault? = none := by cbv
  have hsink : cached.nodes[2] ∈ cached.ownNodes :=
    cached.sink_mem_ownNodes rfl rfl (List.mem_singleton_self _)
  exact compiles_of_faultless c job hfault hsink

/-- The plan is built and compiles, and the trimming is fused into the reading. Its input asks for a
buffer, but its slot has none. -/
theorem cached_unbuffered : ((Builder.new "cached").after cachedCalls).build = .ok cached ∧
    (∃ n ch, cached.node? ⟨1⟩ = some n ∧ n.inputs = [⟨0⟩] ∧ cached.channel? ⟨0⟩ = some ch ∧
      ch.tempMode = .cachingPipelineBreaker) ∧
    ∃ r place t slot, Compiler.standard.compile .zero cached = .ok r ∧
      r.report.placement? ⟨1⟩ = some (.chained place) ∧ r.config? ⟨1⟩ = some t ∧
      t.inputs.get? 0 = some slot ∧
      slot.dammed = false ∧ slot.replayable = false ∧ slot.damMemory = none := by
  obtain ⟨r, hr⟩ := cached_compiles .standard .zero
  obtain ⟨lead, hfault, -, rfl⟩ := answer_of_ok hr
  have hdescribed := described_answer Compiler.standard.policy .zero lead hfault
  have hreach : cached.Reachable ⟨1⟩ :=
    Reachable.of_input (n := cached.nodes[2]) (c := ⟨1⟩) (.sink (List.mem_singleton_self _)) rfl
      (List.mem_singleton_self _) rfl rfl
  have hfused : cached.Fused cached.nodes[1] cached.channels[0] cached.nodes[0] :=
    ⟨⟨_, _, _, rfl, rfl⟩, ⟨⟨0⟩, [], rfl, rfl⟩, rfl, rfl, rfl, rfl, rfl, rfl, rfl⟩
  have hmem : cached.nodes[1] ∈ cached.fusedNodes := hfused.mem_fusedNodes rfl hreach
  have hplace : (cached.answer Compiler.standard.policy .zero lead).report.placement? ⟨1⟩ =
      some (.chained (cached.placeOf cached.nodes[1])) := ((places_answer lead).of_fused hmem).2
  obtain ⟨v, t, c, ch, hv, ht, -, -, hslots⟩ :=
    hdescribed.task cached.nodes[1] (Array.getElem_mem _) _ hplace
  have hconfig : (cached.answer Compiler.standard.policy .zero lead).config? ⟨1⟩ = some t.config := by
    simp [Compiler.Result.config?, hplace, hv, ht]
  exact ⟨cached_built, ⟨_, _, rfl, rfl, rfl, rfl⟩, _, _, t.config, _, hr, hplace, hconfig, hslots 0,
    rfl, rfl, rfl⟩

end Plan

end Dataflow
