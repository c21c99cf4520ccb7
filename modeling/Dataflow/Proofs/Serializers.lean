import Mathlib.Tactic.FinCases
import Dataflow.Proofs.Building
import Dataflow.Proofs.Placements
import Dataflow.Proofs.Success

/-! # How a slot is serialized

    A vertex reads a slot as the channel on its own side says; what arrives has
    been written as the branches say. The branches are compared with each other
    but not with the channel. Without a union the channel is its own branch.
    Behind a union the two sides understand each other exactly if the channel
    says what one of the branches says, and nothing makes it do so.

    Main statements:
    - `understood_iff`: when all slots of a result are read as they are written
    - `spliced_misread`: a built plan that compiles and has a slot that is not
-/

namespace Dataflow

namespace Plan

open Lowering

/-! ## Section 1: Slots that are understood -/

/-- Every slot of a vertex is read as each of its branches is written. -/
def Understood (p : Plan) (r : Compiler.Result) : Prop :=
  ∀ n ∈ p.nodes, ∀ t v, r.report.placement? n.id = some (.vertex t) → r.graph.vertex? t = some v →
    ∀ i c slot, n.inputs[i]? = some c → v.config.inputs.get? i = some slot →
      ∀ b ∈ p.branchesOf c, slot.serializer = some b.serializer

/-- Every channel from a union to a vertex has the serializer of one of its branches. -/
def UnionsConform (p : Plan) (r : Compiler.Result) : Prop :=
  ∀ n ∈ p.nodes, ∀ t, r.report.placement? n.id = some (.vertex t) →
    ∀ c ∈ n.inputs, ∀ ch u, p.channel? c = some ch → p.node? ch.source = some u →
      u.isUnion = true → ∃ b ∈ p.branchesOf c, b.serializer = ch.serializer

variable {p : Plan} {policy : SpillPolicy} {job : JobId}

/-- A vertex has a slot for each input of its node, and reads it as the channel says. -/
theorem slot_sharedVertex (policy : SpillPolicy) (lead : Node) {n : Node} (hn : n ∈ p.ownNodes)
    {i : Nat} {c : ChannelId} {ch : Channel} (hi : n.inputs[i]? = some c)
    (hch : p.channel? c = some ch) :
    (p.sharedVertex policy lead n).config.inputs.get? i = some (slotOf policy p ch) := by
  rw [config_sharedVertex]
  have hinputs := inputs_fullLayout policy hn i
  rw [hi, Option.bind_some, hch, Option.map_some] at hinputs
  exact hinputs

theorem serializer_slotOf (ch : Channel) :
    (slotOf policy p ch).serializer = some ch.serializer := rfl

/-- Without a fault an input of a vertex has branches, and they agree with each other. -/
theorem agree_of_own (hfault : p.schedule.findSome? p.callbackFault? = none) {n : Node}
    (hn : n ∈ p.ownNodes) {c : ChannelId} (hc : c ∈ n.inputs) :
    p.branchesOf c ≠ [] ∧ Agree (p.branchesOf c) := by
  obtain ⟨i, hi⟩ := List.mem_iff_getElem?.mp hc
  have hslot : (c, i) ∈ n.inputs.zipIdx := List.mem_zipIdx_iff_getElem?.mpr hi
  have hnone := slotFault?_eq_none hfault hn hslot
  have hne : p.branchesOf c ≠ [] := fun hnil => by simp [slotFault?, hnil] at hnone
  exact ⟨hne, ((slotFault?_eq_none_iff hne).mp hnone).1⟩

/-- Where slots are understood, the branches of an input of a vertex are written as its channel
says. -/
theorem Understood.serializer_eq {lead : Node} (h : p.Understood (p.answer policy job lead))
    {n : Node} (hn : n ∈ p.ownNodes) {c : ChannelId} (hc : c ∈ n.inputs) {ch : Channel}
    (hch : p.channel? c = some ch) {b : Channel} (hb : b ∈ p.branchesOf c) :
    b.serializer = ch.serializer := by
  have hr : p.Places (p.answer policy job lead).report := places_answer lead
  obtain ⟨hmem, hplace⟩ := hr.of_own hn
  obtain ⟨i, hi⟩ := List.mem_iff_getElem?.mp hc
  have hslot := slot_sharedVertex policy lead hn hi hch
  have hread := h n hmem _ _ hplace (vertex?_answer lead hn) i c _ hi hslot b hb
  rw [serializer_slotOf] at hread
  exact (Option.some.inj hread).symm

/-! ## Section 2: When all slots are understood -/

/-- In a result all slots are read as they are written exactly if every channel from a union to a
vertex has the serializer of one of its branches. -/
theorem understood_iff {c : Compiler} {r : Compiler.Result} (h : c.compile job p = .ok r) :
    p.Understood r ↔ p.UnionsConform r := by
  obtain ⟨lead, hfault, -, rfl⟩ := answer_of_ok h
  have hr : p.Places (p.answer c.policy job lead).report := places_answer lead
  constructor
  · intro hunderstood n hn t ht d hd ch u hch hu hunion
    obtain ⟨hown, rfl⟩ := (hr.vertex_iff (p.node?_of_mem hn) t).mp ht
    obtain ⟨b, hb⟩ := List.exists_mem_of_ne_nil _ (agree_of_own hfault hown hd).1
    exact ⟨b, hb, hunderstood.serializer_eq hown hd hch hb⟩
  · intro hconform n hn t v ht hv i d slot hi hslot b hb
    obtain ⟨hown, rfl⟩ := (hr.vertex_iff (p.node?_of_mem hn) t).mp ht
    obtain rfl := Option.some.inj ((vertex?_answer lead hown).symm.trans hv)
    have hd := List.mem_of_getElem? hi
    obtain ⟨ch, hch, -⟩ := p.exists_channel (p.node?_of_mem hn) hd
    obtain ⟨u, hu⟩ := p.exists_source hch
    rw [slot_sharedVertex c.policy lead hown hi hch] at hslot
    rw [← Option.some.inj hslot, serializer_slotOf]
    cases hunion : u.isUnion with
    | false =>
      rw [p.branchesOf_of_not_union hch hu hunion, List.mem_singleton] at hb
      rw [hb]
    | true =>
      -- One branch is written as the channel says, and so are all others, for they agree.
      obtain ⟨b', hb', hsame⟩ := hconform n hn _ ht d hd ch u hch hu hunion
      rw [← hsame, (agree_of_own hfault hown hd).2 b' hb' b hb]

/-- In the plan that joins two sources the union's channel says what its branches say. -/
theorem wordCount_understood : ∃ r, Compiler.standard.compile .zero wordCount = .ok r ∧
    wordCount.Understood r := by
  obtain ⟨r, hr⟩ := wordCount_compiles .standard .zero
  refine ⟨r, hr, (understood_iff hr).mpr ?_⟩
  intro n _ t _ c _ ch u hch hu hunion
  have hmem : ch ∈ wordCount.channels.toList := Array.mem_toList_iff.mpr (Array.mem_of_getElem? hch)
  -- Only one channel starts at the union.
  fin_cases hmem
  · exact absurd (Option.some.inj hu ▸ hunion) (by decide)
  · exact absurd (Option.some.inj hu ▸ hunion) (by decide)
  · have hbranches : wordCount.branchesOf c = wordCount.branchesOf ⟨2⟩ := by
      simp only [branchesOf, hch]
      rfl
    exact ⟨wordCount.channels[0], by simp [hbranches, wordCount_branchesOf], rfl⟩
  · exact absurd (Option.some.inj hu ▸ hunion) (by decide)
  · exact absurd (Option.some.inj hu ▸ hunion) (by decide)

/-! ## Section 3: A slot that is misread -/

/-- Two sources are joined and written. The channel behind the union has another serializer. -/
def splicedCalls : List Builder.Call :=
  let forward : String → Shipment := fun serializer =>
    { ship := .forward, serializer := ⟨serializer, .empty⟩ }
  [.add { name := "left", kind := .source ⟨"S", .empty⟩ },
    .add { name := "right", kind := .source ⟨"S", .empty⟩ },
    .add { name := "both", kind := .union },
    .add { name := "out", kind := .sink },
    .connect ⟨0⟩ ⟨2⟩ (forward "S"), .connect ⟨1⟩ ⟨2⟩ (forward "S"), .connect ⟨2⟩ ⟨3⟩ (forward "T")]

/-- The parts that the calls make, with the sink. -/
def splicedParts : Parts :=
  { ((Builder.new "spliced").after splicedCalls).parts with sinks := [⟨3⟩] }

theorem spliced_consistent : splicedParts.Consistent :=
  splicedParts.inconsistency?_eq_none_iff.mp (by decide)

theorem spliced_listing : splicedParts.listing = .ok [⟨3⟩, ⟨2⟩, ⟨1⟩, ⟨0⟩] := by cbv

/-- The plan of these parts. -/
def spliced : Plan :=
  { splicedParts with
    consistent := spliced_consistent
    acyclic := Parts.acyclic_of_listing spliced_consistent spliced_listing }

theorem spliced_built : ((Builder.new "spliced").after splicedCalls).build = .ok spliced :=
  spliced.ofParts_toParts spliced_listing

theorem spliced_branchesOf :
    spliced.branchesOf ⟨2⟩ = [spliced.channels[0], spliced.channels[1]] := by cbv

theorem spliced_compiles (c : Compiler) (job : JobId) : ∃ r, c.compile job spliced = .ok r := by
  have hfault : spliced.schedule.findSome? spliced.callbackFault? = none := by cbv
  have hsink : spliced.nodes[3] ∈ spliced.ownNodes :=
    spliced.sink_mem_ownNodes rfl rfl (List.mem_singleton_self _)
  exact compiles_of_faultless c job hfault hsink

/-- The plan is built and compiles, but the sink reads its slot with a serializer that neither source
writes with. -/
theorem spliced_misread : ((Builder.new "spliced").after splicedCalls).build = .ok spliced ∧
    ∃ r, Compiler.standard.compile .zero spliced = .ok r ∧ ¬ spliced.Understood r := by
  obtain ⟨r, hr⟩ := spliced_compiles .standard .zero
  obtain ⟨lead, -, -, rfl⟩ := answer_of_ok hr
  refine ⟨spliced_built, _, hr, fun hunderstood => ?_⟩
  have hsink : spliced.nodes[3] ∈ spliced.ownNodes :=
    spliced.sink_mem_ownNodes rfl rfl (List.mem_singleton_self _)
  have hsame := hunderstood.serializer_eq hsink (c := ⟨2⟩) (List.mem_singleton_self _) rfl
    (b := spliced.channels[0]) (by simp [spliced_branchesOf])
  exact absurd hsame (by decide)

end Plan

end Dataflow
