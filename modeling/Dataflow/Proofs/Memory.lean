import Dataflow.Proofs.Description
import Dataflow.Proofs.FlatKeys
import Dataflow.Proofs.Payload

/-! # Memory in flat configurations

    A plan says sizes in bytes as natural numbers of 64 bits: of the memory of a
    subtask, of the preparation of an input and of its buffer. The runtime finds
    each of them under a key of the vertex that is to have the memory, as a
    signed integer of 64 bits. Nothing is lost on the way to the key, but a size
    with its highest bit set reads as a negative one there.

    Main statements:
    - `memory_exact_iff`: what is found, and when it is the size that was said
    - `hungry_negative`: a plan that compiles and whose memory reads as negative
-/

namespace Dataflow

-- Powers of natural numbers are those of the core library, whatever else is imported.
attribute [local instance (high)] instPowNat

/-! ## Section 1: Sizes -/

/-- What a vertex has under a key of its flat configuration. -/
def JobGraph.flat? (g : JobGraph) (t : VertexId) (key : String) : Option Setting :=
  (g.vertex? t).bind fun v => v.config.flatten.get? key

/-- The signed reading of a word is the number that it stands for exactly if its highest bit is not
set. -/
theorem toInt_toInt64_eq_iff (m : UInt64) : m.toInt64.toInt = m.toNat ↔ m.toNat < 2 ^ (63 : Nat) := by
  have hread : m.toInt64.toInt = m.toBitVec.toInt := rfl
  have hlt := m.toNat_lt
  rw [hread, BitVec.toInt_eq_toNat_cond, UInt64.toNat_toBitVec]
  split <;> omega

theorem SpillPolicy.budget?_of_pos (policy : SpillPolicy) {m : UInt64} (h : 0 < m) :
    policy.budget? m =
      some { memory := m, maxFanIn := policy.maxFanIn, threshold := policy.threshold } :=
  (policy.budget?_eq_some_iff m _).mpr ⟨h, rfl⟩

namespace Plan

open Lowering

/-- A plan says a size, and it is to be found under a key of a vertex. -/
inductive Sized (p : Plan) (r : Compiler.Result) : VertexId → String → UInt64 → Prop where
  /-- The memory of an operator with a vertex. -/
  | driver {n : Node} {t : VertexId} (hn : n ∈ p.nodes) (hkind : n.kind.driver?.isSome)
    (hmemory : 0 < n.memory) (hplace : r.report.placement? n.id = some (.vertex t)) :
    p.Sized r t "driver.memory" n.memory
  /-- The memory of a fused operator, at its host. -/
  | fused {n : Node} {place : Place} (hn : n ∈ p.nodes) (hkind : n.kind.driver?.isSome)
    (hmemory : 0 < n.memory) (hplace : r.report.placement? n.id = some (.chained place)) :
    p.Sized r place.host ("chaining." ++ toString place.position ++ ".config.driver.memory") n.memory
  /-- The memory for the preparation of an input. -/
  | preparation {n : Node} {t : VertexId} {i : Nat} {c : ChannelId} {ch : Channel} (hn : n ∈ p.nodes)
    (hplace : r.report.placement? n.id = some (.vertex t)) (hi : n.inputs[i]? = some c)
    (hch : p.channel? c = some ch) (hmemory : 0 < ch.localMemory) :
    p.Sized r t ("in." ++ toString i ++ ".memory") ch.localMemory
  /-- The memory of the buffer of an input. -/
  | buffer {n : Node} {t : VertexId} {i : Nat} {c : ChannelId} {ch : Channel} (hn : n ∈ p.nodes)
    (hplace : r.report.placement? n.id = some (.vertex t)) (hi : n.inputs[i]? = some c)
    (hch : p.channel? c = some ch) (hmode : ch.tempMode ≠ .nothing) :
    p.Sized r t ("in." ++ toString i ++ ".dam-memory") ch.tempMemory

/-- Every size that a plan says is found under its key, with the given reading. -/
def ReadsSizes (p : Plan) (r : Compiler.Result) (Reads : UInt64 → Int64 → Prop) : Prop :=
  ∀ t key m, p.Sized r t key m → ∃ i, r.graph.flat? t key = some (.integer i) ∧ Reads m i

variable {p : Plan} {policy : SpillPolicy} {job : JobId} {r : Compiler.Result}

/-! ## Section 2: Sizes under their keys -/

/-- What an operator asks for has its memory, as far as there is any. -/
theorem Node.Asks.memory {n : Node} {driver : Option String} {t : TaskConfig}
    (h : n.Asks policy driver t.payload) (hkind : n.kind.driver?.isSome) (hmemory : 0 < n.memory) :
    t.flatten.get? "driver.memory" = some (.integer n.memory.toInt64) := by
  have hbudget : t.driverBudget = policy.budget? n.memory := by
    obtain ⟨d, hd⟩ := Option.isSome_iff_exists.mp hkind
    have hasked : t.driverBudget = n.kind.driver?.bind fun _ => policy.budget? n.memory :=
      h.driverBudget
    rw [hasked, hd, Option.bind_some]
  show t.flatten.get? (FlatKey.driver (.budget .memory)).text = _
  rw [t.get?_flatten, TaskConfig.read?, hbudget, policy.budget?_of_pos hmemory]
  rfl

theorem preparation_memory {t : TaskConfig} {i : Nat} {slot : InputSlot} {ch : Channel}
    (hslot : t.inputs.get? i = some slot) (h : slot.DescribedBy policy ch)
    (hmemory : 0 < ch.localMemory) :
    t.flatten.get? ("in." ++ toString i ++ ".memory") = some (.integer ch.localMemory.toInt64) := by
  have hbudget := (h.budget _).mpr ⟨hmemory, rfl⟩
  have hread := TaskConfig.get?_flatten_input hslot (.budget .memory)
  rw [FlatKey.text_input, InputSlot.read?, hbudget] at hread
  exact hread

theorem buffer_memory {t : TaskConfig} {i : Nat} {slot : InputSlot} {ch : Channel}
    (hslot : t.inputs.get? i = some slot) (h : slot.DescribedBy policy ch)
    (hmode : ch.tempMode ≠ .nothing) :
    t.flatten.get? ("in." ++ toString i ++ ".dam-memory") =
      some (.integer ch.tempMemory.toInt64) := by
  have hmemory := (h.damMemory _).mpr ⟨hmode, rfl⟩
  have hread := TaskConfig.get?_flatten_input hslot .damMemory
  rw [FlatKey.text_input, InputSlot.read?, hmemory] at hread
  exact hread

/-- The slot of a vertex for an input of its node, by the input's channel. -/
theorem Described.slot (h : p.Described policy r) {n : Node} (hn : n ∈ p.nodes) {t : VertexId}
    (hplace : r.report.placement? n.id = some (.vertex t)) {i : Nat} {c : ChannelId} {ch : Channel}
    (hi : n.inputs[i]? = some c) (hch : p.channel? c = some ch) :
    ∃ v slot, r.graph.vertex? t = some v ∧ v.config.inputs.get? i = some slot ∧
      slot.DescribedBy policy ch := by
  obtain ⟨v, hv, -, hslots⟩ := h.vertex n hn t hplace
  obtain ⟨ch', slot, hch', hslot, hslotch⟩ := hslots i c hi
  obtain rfl := Option.some.inj (hch'.symm.trans hch)
  exact ⟨v, slot, hv, hslot, hslotch⟩

/-- Where nodes and slots are as the plan says, every size is found under its key as an integer. -/
theorem Sized.found {t : VertexId} {key : String} {m : UInt64} (h : p.Sized r t key m)
    (hembodied : p.Embodied policy r) (hdescribed : p.Described policy r) :
    r.graph.flat? t key = some (.integer m.toInt64) := by
  unfold JobGraph.flat?
  cases h with
  | driver hn hkind hmemory hplace =>
    obtain ⟨v, hv, -, -, -, -, -, hasks⟩ := hembodied.vertex _ hn t hplace
    rw [hv, Option.bind_some]
    exact hasks.memory hkind hmemory
  | @fused n place hn hkind hmemory hplace =>
    obtain ⟨v, task, hv, htask, -, -, hasks⟩ := hembodied.task _ hn place hplace
    have hread := TaskConfig.get?_flatten_fused htask "driver.memory"
    rw [FlatKey.text_fused, String.append_assoc, hasks.memory hkind hmemory] at hread
    rw [hv, Option.bind_some]
    exact hread
  | preparation hn hplace hi hch hmemory =>
    obtain ⟨v, slot, hv, hslot, hslotch⟩ := hdescribed.slot hn hplace hi hch
    rw [hv, Option.bind_some]
    exact preparation_memory hslot hslotch hmemory
  | buffer hn hplace hi hch hmode =>
    obtain ⟨v, slot, hv, hslot, hslotch⟩ := hdescribed.slot hn hplace hi hch
    rw [hv, Option.bind_some]
    exact buffer_memory hslot hslotch hmode

/-- In a result every size that the plan says is found under its key, as the signed reading of its
64 bits. So all of them are found as they are said exactly if none has its highest bit set. -/
theorem memory_exact_iff {c : Compiler} (h : c.compile job p = .ok r) :
    p.ReadsSizes r (fun m i => i = m.toInt64) ∧
      (p.ReadsSizes r (fun m i => i.toInt = m.toNat) ↔
        ∀ t key m, p.Sized r t key m → m.toNat < 2 ^ (63 : Nat)) := by
  obtain ⟨lead, hfault, -, rfl⟩ := answer_of_ok h
  have hfound : ∀ {t key m}, p.Sized (p.answer c.policy job lead) t key m →
      (p.answer c.policy job lead).graph.flat? t key = some (.integer m.toInt64) := fun hsized =>
    hsized.found (embodied_answer c.policy job lead) (described_answer c.policy job lead hfault)
  refine ⟨fun t key m hsized => ⟨_, hfound hsized, rfl⟩, ?_⟩
  constructor
  · intro hexact t key m hsized
    obtain ⟨i, hi, hread⟩ := hexact t key m hsized
    have heq : m.toInt64 = i := by simpa [hfound hsized] using hi
    exact (toInt_toInt64_eq_iff m).mp (heq ▸ hread)
  · intro hbound t key m hsized
    exact ⟨_, hfound hsized, (toInt_toInt64_eq_iff m).mpr (hbound t key m hsized)⟩

/-! ## Section 3: A size that reads as negative -/

/-- Lines are read, sorted in half of all the memory that there can be, formatted and written. -/
def hungryCalls : List Builder.Call :=
  let forward : Shipment := { ship := .forward, serializer := ⟨"Line", .empty⟩ }
  [.add { name := "read", kind := .source ⟨"Line", .empty⟩ },
    .add { name := "sort", kind := .singleInput .sortedGroup none, memory := 9223372036854775808 },
    .add { name := "format", kind := .singleInput .map none, memory := 512 },
    .add { name := "write", kind := .sink },
    .connect ⟨0⟩ ⟨1⟩ forward, .connect ⟨1⟩ ⟨2⟩ forward, .connect ⟨2⟩ ⟨3⟩ forward]

/-- The parts that the calls make, with the sink. -/
def hungryParts : Parts := { ((Builder.new "hungry").after hungryCalls).parts with sinks := [⟨3⟩] }

theorem hungry_consistent : hungryParts.Consistent :=
  hungryParts.inconsistency?_eq_none_iff.mp (by decide)

theorem hungry_listing : hungryParts.listing = .ok [⟨3⟩, ⟨2⟩, ⟨1⟩, ⟨0⟩] := by cbv

/-- The plan of these parts. -/
def hungry : Plan :=
  { hungryParts with
    consistent := hungry_consistent
    acyclic := Parts.acyclic_of_listing hungry_consistent hungry_listing }

theorem hungry_compiles (c : Compiler) (job : JobId) : ∃ r, c.compile job hungry = .ok r := by
  have hfault : hungry.schedule.findSome? hungry.callbackFault? = none := by cbv
  have hsink : hungry.nodes[3] ∈ hungry.ownNodes :=
    hungry.sink_mem_ownNodes rfl rfl (List.mem_singleton_self _)
  exact compiles_of_faultless c job hfault hsink

/-- The memory of the formatting is found at its host, as the plan says it. -/
theorem hungry_formats : ∃ r place, Compiler.standard.compile .zero hungry = .ok r ∧
    r.report.placement? ⟨2⟩ = some (.chained place) ∧
    r.graph.flat? place.host ("chaining." ++ toString place.position ++ ".config.driver.memory") =
      some (.integer 512) := by
  obtain ⟨r, hr⟩ := hungry_compiles .standard .zero
  have hfused : hungry.nodes[2] ∈ hungry.fusedNodes := of_decide_eq_true (by cbv)
  have hplace : ∃ place, r.report.placement? ⟨2⟩ = some (.chained place) := by
    obtain ⟨lead, -, -, rfl⟩ := answer_of_ok hr
    exact ⟨_, ((places_answer lead).of_fused hfused).2⟩
  obtain ⟨place, hplace⟩ := hplace
  have hsized : hungry.Sized r place.host
      ("chaining." ++ toString place.position ++ ".config.driver.memory") 512 :=
    .fused (n := hungry.nodes[2]) (Array.getElem_mem _) rfl (by decide) hplace
  obtain ⟨i, hi, rfl⟩ := (memory_exact_iff hr).1 _ _ _ hsized
  exact ⟨r, place, hr, hplace, hi⟩

/-- The plan compiles, but the memory that it says for the sorting reads as negative. -/
theorem hungry_negative : ∃ n r t, hungry.node? ⟨1⟩ = some n ∧ n.memory.toNat = 9223372036854775808 ∧
    Compiler.standard.compile .zero hungry = .ok r ∧ r.report.placement? ⟨1⟩ = some (.vertex t) ∧
    r.graph.flat? t "driver.memory" = some (.integer (-9223372036854775808)) := by
  obtain ⟨r, hr⟩ := hungry_compiles .standard .zero
  obtain ⟨lead, hfault, -, rfl⟩ := answer_of_ok hr
  have hown : hungry.nodes[1] ∈ hungry.ownNodes := of_decide_eq_true (by cbv)
  have hplace : (hungry.answer Compiler.standard.policy .zero lead).report.placement? ⟨1⟩ =
      some (.vertex (hungry.vertexOf ⟨1⟩)) := ((places_answer lead).of_own hown).2
  have hsized : hungry.Sized (hungry.answer Compiler.standard.policy .zero lead)
      (hungry.vertexOf ⟨1⟩) "driver.memory" 9223372036854775808 :=
    .driver (n := hungry.nodes[1]) (Array.getElem_mem _) rfl (by decide) hplace
  exact ⟨hungry.nodes[1], _, _, rfl, by decide, hr, hplace,
    hsized.found (embodied_answer Compiler.standard.policy .zero lead)
      (described_answer Compiler.standard.policy .zero lead hfault)⟩

end Plan

end Dataflow
