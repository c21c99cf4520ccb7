import Dataflow.Task.Flat

/-! # Keys of flat configurations

    All settings of a task share one space of keys, with those of the tasks
    fused into it and with parameters that users name as they like. A key is
    read from its front: up to a dot it names an owner, and the rest is a key of
    that owner. So different settings have different keys, no entry is written
    over another one, and a lookup finds what has been written.

    Main statements:
    - `FlatKey.text_injective`: different settings have different keys
    - `TaskConfig.get?_flatten`: what is found under a key
-/

namespace Dataflow

/-! ## Section 1: Owners -/

/-- The key of a setting of an owner. -/
def dotted (owner key : String) : String := owner ++ "." ++ key

/-- A text without dots. -/
def Undotted (s : String) : Prop := '.' ∉ s.toList

instance (s : String) : Decidable (Undotted s) := inferInstanceAs (Decidable ('.' ∉ s.toList))

theorem toString_inj {m n : Nat} : toString m = toString n ↔ m = n := by
  constructor
  · intro h
    have hdigits := congrArg (fun s => Nat.ofDigitChars 10 s.toList 0) h
    simpa [Nat.toString_eq_ofList_toDigits] using hdigits
  · exact congrArg toString

theorem undotted_toString (n : Nat) : Undotted (toString n) := by
  intro hmem
  have hdigits : (toString n).toList = Nat.toDigits 10 n := by
    rw [Nat.toString_eq_ofList_toDigits, String.toList_ofList]
  rw [hdigits] at hmem
  exact absurd (Nat.isDigit_of_mem_toDigits (by decide) (by decide) hmem) (by decide)

theorem append_dot_inj {a b s t : List Char} (ha : '.' ∉ a) (hb : '.' ∉ b)
    (h : a ++ '.' :: s = b ++ '.' :: t) : a = b ∧ s = t := by
  induction a generalizing b with
  | nil =>
    cases b with
    | nil => exact ⟨rfl, (List.cons.inj h).2⟩
    | cons d b => exact absurd ((List.cons.inj h).1 ▸ List.mem_cons_self) hb
  | cons c a ih =>
    cases b with
    | nil => exact absurd ((List.cons.inj h).1 ▸ List.mem_cons_self) ha
    | cons d b =>
      have hrest := (List.cons.inj h).2
      obtain ⟨hab, hst⟩ := ih (fun hc => ha (List.mem_cons_of_mem _ hc))
        (fun hd => hb (List.mem_cons_of_mem _ hd)) hrest
      exact ⟨by rw [(List.cons.inj h).1, hab], hst⟩

/-- A key gives its owner and the rest, if owners have no dots. -/
theorem dotted_inj {a b s t : String} (ha : Undotted a) (hb : Undotted b) :
    dotted a s = dotted b t ↔ a = b ∧ s = t := by
  constructor
  · intro h
    have hchars : a.toList ++ '.' :: s.toList = b.toList ++ '.' :: t.toList := by
      simpa [dotted] using congrArg String.toList h
    obtain ⟨hab, hst⟩ := append_dot_inj ha hb hchars
    exact ⟨String.toList_inj.mp hab, String.toList_inj.mp hst⟩
  · rintro ⟨rfl, rfl⟩
    rfl

theorem ne_dotted {a b t : String} (ha : Undotted a) : a ≠ dotted b t := by
  rintro rfl
  simp [Undotted, dotted] at ha

theorem dotted_ne {a b t : String} (ha : Undotted a) : dotted b t ≠ a :=
  (ne_dotted ha).symm

/-! ## Section 2: Settings -/

/-- A setting of a budget. -/
inductive BudgetField where
  | memory
  | maxFanIn
  | threshold

/-- A setting of a driver. -/
inductive DriverField where
  | driver
  | strategy
  | pairComparator
  | budget (field : BudgetField)

/-- A setting of an input slot. -/
inductive InputField where
  | wires
  | serializer
  | localStrategy
  | comparator
  | budget (field : BudgetField)
  | dammed
  | replayable
  | damMemory

/-- A setting of an output slot. -/
inductive OutputField where
  | ship
  | comparator

/-- A setting of a fused task beside its own ones. -/
inductive FusedField where
  | driver
  | name

/-- The key of a setting at its budget. -/
def BudgetField.text : BudgetField → String
  | memory => "memory"
  | maxFanIn => "max-fan"
  | threshold => "spill-threshold"

/-- The key of a setting at its driver. -/
def DriverField.text : DriverField → String
  | driver => "class"
  | strategy => "strategy"
  | pairComparator => "pair-comparator"
  | budget field => field.text

/-- The key of a setting at its input slot. -/
def InputField.text : InputField → String
  | wires => "group-size"
  | serializer => "serializer"
  | localStrategy => "local-strategy"
  | comparator => "comparator"
  | budget field => field.text
  | dammed => "dammed"
  | replayable => "replayable"
  | damMemory => "dam-memory"

/-- The key of a setting at its output slot. -/
def OutputField.text : OutputField → String
  | ship => "ship-strategy"
  | comparator => "comparator"

/-- The key of a setting at its fused task. -/
def FusedField.text : FusedField → String
  | driver => "class"
  | name => "name"

section

variable {b b' : BudgetField} {d d' : DriverField} {i i' : InputField} {o o' : OutputField}
  {t t' : FusedField}

@[simp] theorem undotted_driverField : Undotted d.text := by
  rcases d with _ | _ | _ | (_ | _ | _) <;> decide

@[simp] theorem undotted_fusedField : Undotted t.text := by
  cases t <;> decide

@[simp] theorem driverField_inj : d.text = d'.text ↔ d = d' := by
  rcases d with _ | _ | _ | (_ | _ | _) <;> rcases d' with _ | _ | _ | (_ | _ | _) <;>
    simp [DriverField.text, BudgetField.text]

@[simp] theorem inputField_inj : i.text = i'.text ↔ i = i' := by
  rcases i with _ | _ | _ | _ | (_ | _ | _) | _ | _ | _ <;>
    rcases i' with _ | _ | _ | _ | (_ | _ | _) | _ | _ | _ <;>
    simp [InputField.text, BudgetField.text]

@[simp] theorem outputField_inj : o.text = o'.text ↔ o = o' := by
  cases o <;> cases o' <;> simp [OutputField.text]

@[simp] theorem fusedField_inj : t.text = t'.text ↔ t = t' := by
  cases t <;> cases t' <;> simp [FusedField.text]

end

/-! ## Section 3: Keys -/

/-- A setting of a task, or one of a task that is fused into it, under the key that it has there. -/
inductive FlatKey where
  | userClass
  | parameter (name : String)
  | driver (field : DriverField)
  | driverComparator (position : Nat)
  | sinkParallelism
  | inputCount
  | input (position : Nat) (field : InputField)
  | outputCount
  | output (position : Nat) (field : OutputField)
  | outputSerializer
  | fusedCount
  | fusedTask (position : Nat) (field : FusedField)
  | fused (position : Nat) (key : String)

namespace FlatKey

/-- The owner of a setting. -/
def owner : FlatKey → String
  | userClass | parameter _ => "stub"
  | driver _ | driverComparator _ => "driver"
  | sinkParallelism => "sink"
  | inputCount | input .. => "in"
  | outputCount | output .. | outputSerializer => "out"
  | fusedCount | fusedTask .. | fused .. => "chaining"

/-- The key of a setting at its owner. -/
def rest : FlatKey → String
  | userClass => "class"
  | parameter name => dotted "param" name
  | driver field => field.text
  | driverComparator position => dotted "comparator" (toString position)
  | sinkParallelism => "dop"
  | inputCount | outputCount | fusedCount => "num"
  | input position field => dotted (toString position) field.text
  | output position field => dotted (toString position) field.text
  | outputSerializer => "serializer"
  | fusedTask position field => dotted (toString position) field.text
  | fused position key => dotted (toString position) (dotted "config" key)

/-- The key of a setting. -/
def text (k : FlatKey) : String := dotted k.owner k.rest

theorem undotted_owner (k : FlatKey) : Undotted k.owner := by
  cases k <;> simp only [owner] <;> decide

/-- Different settings have different keys. -/
theorem text_injective {k k' : FlatKey} (h : k.text = k'.text) : k = k' := by
  obtain ⟨howner, hrest⟩ := (dotted_inj k.undotted_owner k'.undotted_owner).mp h
  -- Settings of different owners go first; the others differ in what stands behind the owner.
  cases k <;> cases k' <;> simp only [owner, String.reduceEq] at howner <;>
    simp (disch := first | decide | exact undotted_toString _ | simp) only [rest, dotted_inj,
      ne_dotted, dotted_ne, toString_inj, driverField_inj, inputField_inj, outputField_inj,
      fusedField_inj, String.reduceEq, and_false] at hrest <;>
    simp [hrest]

theorem text_input (position : Nat) (field : InputField) :
    (input position field).text = "in." ++ toString position ++ ("." ++ field.text) := by
  simp [text, owner, rest, dotted, ← String.toList_inj]

theorem text_output (position : Nat) (field : OutputField) :
    (output position field).text = "out." ++ toString position ++ ("." ++ field.text) := by
  simp [text, owner, rest, dotted, ← String.toList_inj]

theorem text_fusedTask (position : Nat) (field : FusedField) :
    (fusedTask position field).text = fusedOwner position ++ ("." ++ field.text) := by
  simp [text, owner, rest, dotted, fusedOwner, ← String.toList_inj]

theorem text_fused (position : Nat) (key : String) :
    (fused position key).text = fusedOwner position ++ ".config." ++ key := by
  simp [text, owner, rest, dotted, fusedOwner, ← String.toList_inj]

theorem text_parameter (name : String) : (parameter name).text = "stub.param." ++ name := by
  simp [text, owner, rest, dotted, ← String.toList_inj]

theorem text_driverBudget (field : BudgetField) :
    (driver (.budget field)).text = "driver" ++ ("." ++ field.text) :=
  String.append_assoc ..

theorem text_driverComparator (position : Nat) :
    (driverComparator position).text = "driver.comparator." ++ toString position := by
  simp [text, owner, rest, dotted, ← String.toList_inj]

end FlatKey

/-! ## Section 4: Settings by key -/

/-- A setting of a budget. -/
def Budget.read (b : Budget) : BudgetField → Setting
  | .memory => .integer b.memory.toInt64
  | .maxFanIn => .ofNat b.maxFanIn.toNat
  | .threshold => .float b.threshold.convert

/-- A setting of an input slot, if it is written. -/
def InputSlot.read? (slot : InputSlot) : InputField → Option Setting
  | .wires => some (.ofNat slot.wires.toNat)
  | .serializer => slot.serializer.map Descriptor.setting
  | .localStrategy => slot.localStrategy.map fun s => .string s.display
  | .comparator => slot.comparator.map Descriptor.setting
  | .budget field => slot.budget.map fun b => b.read field
  | .dammed => if slot.dammed then some (.bool true) else none
  | .replayable => if slot.replayable then some (.bool true) else none
  | .damMemory => slot.damMemory.map fun m => .integer m.toInt64

/-- A setting of an output slot, if it is written. -/
def OutputSlot.read? (slot : OutputSlot) : OutputField → Option Setting
  | .ship => some (.string slot.ship.display)
  | .comparator => slot.comparator.map Descriptor.setting

/-- A setting of a fused task beside its own ones. -/
def FusedTask.read (task : FusedTask) : FusedField → Setting
  | .driver => .string task.driver
  | .name => .string task.name

/-- A setting of a task, if it is written. -/
def TaskConfig.read? (t : TaskConfig) : FlatKey → Option Setting
  | .userClass => t.userCode.map fun u => .string u.className
  | .parameter name => t.userCode.bind fun u => u.parameters.get? name
  | .driver .driver => t.driver.map .string
  | .driver .strategy => t.driverStrategy.map fun s => .string s.name
  | .driver .pairComparator => t.pairComparator.map Descriptor.setting
  | .driver (.budget field) => t.driverBudget.map fun b => b.read field
  | .driverComparator position => (t.driverComparators.get? position).map Descriptor.setting
  | .sinkParallelism => t.sinkParallelism.map fun p => .ofNat p.toNat
  | .inputCount => some (.ofNat t.inputs.size)
  | .input position field => (t.inputs.get? position).bind fun slot => slot.read? field
  | .outputCount => some (.ofNat t.outputs.length)
  | .output position field => t.outputs[position]?.bind fun slot => slot.read? field
  | .outputSerializer => t.outputSerializer.map Descriptor.setting
  | .fusedCount => if t.fused.length = 0 then none else some (.ofNat t.fused.length)
  | .fusedTask position field => t.fused[position]?.map fun task => task.read field
  | .fused position key => t.fused[position]?.bind fun task => task.config.flatten.get? key

/-! ## Section 5: Entries -/

section

variable {key : String} {v : Setting}

theorem mem_optionalEntry {α : Type} {k : String} {value : Option α} {setting : α → Setting} :
    (key, v) ∈ optionalEntry k value setting ↔ key = k ∧ value.map setting = some v := by
  cases value <;> simp [optionalEntry, eq_comm]

theorem mem_markEntry {k : String} {mark : Bool} : (key, v) ∈ markEntry k mark ↔
    key = k ∧ (if mark then some (.bool true) else none) = some v := by
  cases mark <;> simp [markEntry, eq_comm]

theorem Budget.mem_entries {b : Budget} {owner : String} : (key, v) ∈ b.entries owner ↔
    ∃ field : BudgetField, key = owner ++ ("." ++ field.text) ∧ b.read field = v := by
  have hfields : ∀ P : BudgetField → Prop,
      (∃ field, P field) ↔ P .memory ∨ P .maxFanIn ∨ P .threshold := by
    intro P
    constructor
    · rintro ⟨_ | _ | _, h⟩ <;> simp [h]
    · rintro (h | h | h) <;> exact ⟨_, h⟩
  simp only [hfields, entries, List.mem_cons, Prod.mk.injEq, List.not_mem_nil, or_false, read,
    eq_comm (a := v)]
  rfl

theorem InputSlot.mem_entries {slot : InputSlot} {position : Nat} :
    (key, v) ∈ slot.entries position ↔
      ∃ field, key = (FlatKey.input position field).text ∧ slot.read? field = some v := by
  have hfields : ∀ P : InputField → Prop, (∃ field, P field) ↔
      P .wires ∨ P .serializer ∨ P .localStrategy ∨ P .comparator ∨ (∃ field, P (.budget field)) ∨
        P .dammed ∨ P .replayable ∨ P .damMemory := by
    intro P
    constructor
    · rintro ⟨_ | _ | _ | _ | field | _ | _ | _, h⟩
      case budget => exact .inr (.inr (.inr (.inr (.inl ⟨field, h⟩))))
      all_goals simp [h]
    · rintro (h | h | h | h | ⟨field, h⟩ | h | h | h) <;> exact ⟨_, h⟩
  -- A budget, if there is one, has entries of its own.
  cases hbudget : slot.budget <;>
    simp only [hfields, entries, hbudget, List.mem_append, List.mem_singleton, Prod.mk.injEq,
      mem_optionalEntry, mem_markEntry, Budget.mem_entries, FlatKey.text_input, or_assoc, read?,
      Option.map_none, Option.map_some, Option.some.injEq, List.not_mem_nil, reduceCtorEq, and_false,
      exists_false, eq_comm (a := v)] <;>
    rfl

theorem OutputSlot.mem_entries {slot : OutputSlot} {position : Nat} :
    (key, v) ∈ slot.entries position ↔
      ∃ field, key = (FlatKey.output position field).text ∧ slot.read? field = some v := by
  have hfields : ∀ P : OutputField → Prop, (∃ field, P field) ↔ P .ship ∨ P .comparator := by
    intro P
    constructor
    · rintro ⟨_ | _, h⟩ <;> simp [h]
    · rintro (h | h) <;> exact ⟨_, h⟩
  simp only [hfields, entries, List.mem_cons, Prod.mk.injEq, mem_optionalEntry,
    FlatKey.text_output, read?, Option.some.injEq, eq_comm (a := v)]
  rfl

theorem UserCode.mem_entries {u : UserCode} : (key, v) ∈ u.entries ↔
    (key = FlatKey.userClass.text ∧ .string u.className = v) ∨
      ∃ name, key = (FlatKey.parameter name).text ∧ u.parameters.get? name = some v := by
  simp only [entries, List.mem_cons, List.mem_map, Prod.exists, Prod.mk.injEq,
    FlatKey.text_parameter, SortedMap.get?_eq_some_iff, eq_comm (a := v)]
  apply or_congr Iff.rfl
  constructor
  · rintro ⟨name, value, hmem, rfl, rfl⟩
    exact ⟨name, rfl, hmem⟩
  · rintro ⟨name, rfl, hmem⟩
    exact ⟨name, v, hmem, rfl, rfl⟩

theorem mem_comparatorEntries {comparators : SortedMap Nat Comparator} :
    (key, v) ∈ comparators.entries.map (fun e => ("driver.comparator." ++ toString e.1, e.2.setting)) ↔
      ∃ position, key = (FlatKey.driverComparator position).text ∧
        (comparators.get? position).map Descriptor.setting = some v := by
  simp only [List.mem_map, Prod.exists, Prod.mk.injEq, FlatKey.text_driverComparator,
    Option.map_eq_some_iff, SortedMap.get?_eq_some_iff]
  constructor
  · rintro ⟨position, comparator, hmem, rfl, rfl⟩
    exact ⟨position, rfl, comparator, hmem, rfl⟩
  · rintro ⟨position, rfl, comparator, hmem, rfl⟩
    exact ⟨position, comparator, hmem, rfl, rfl⟩

theorem mem_inputEntries {inputs : SortedMap Nat InputSlot} :
    (key, v) ∈ inputs.entries.flatMap (fun e => e.2.entries e.1) ↔
      ∃ position field, key = (FlatKey.input position field).text ∧
        ((inputs.get? position).bind fun slot => slot.read? field) = some v := by
  simp only [List.mem_flatMap, Prod.exists, InputSlot.mem_entries, Option.bind_eq_some_iff,
    SortedMap.get?_eq_some_iff]
  constructor
  · rintro ⟨position, slot, hmem, field, rfl, hread⟩
    exact ⟨position, field, rfl, slot, hmem, hread⟩
  · rintro ⟨position, field, rfl, slot, hmem, hread⟩
    exact ⟨position, slot, hmem, field, rfl, hread⟩

theorem mem_outputEntries {outputs : List OutputSlot} :
    (key, v) ∈ outputs.zipIdx.flatMap (fun slot => slot.1.entries slot.2) ↔
      ∃ position field, key = (FlatKey.output position field).text ∧
        (outputs[position]?.bind fun slot => slot.read? field) = some v := by
  simp only [List.mem_flatMap, Prod.exists, OutputSlot.mem_entries, Option.bind_eq_some_iff,
    List.mem_zipIdx_iff_getElem?]
  constructor
  · rintro ⟨slot, position, hslot, field, rfl, hread⟩
    exact ⟨position, field, rfl, slot, hslot, hread⟩
  · rintro ⟨position, field, rfl, slot, hslot, hread⟩
    exact ⟨slot, position, hslot, field, rfl, hread⟩

theorem FusedTask.mem_entriesFrom {tasks : List FusedTask} {start : Nat} :
    (key, v) ∈ entriesFrom start tasks ↔ ∃ position task, tasks[position]? = some task ∧
      ((∃ field, key = (FlatKey.fusedTask (start + position) field).text ∧ task.read field = v) ∨
        ∃ k, (k, v) ∈ task.config.entries ∧ key = (FlatKey.fused (start + position) k).text) := by
  induction tasks generalizing start with
  | nil => simp [entriesFrom]
  | cons task rest ih =>
    obtain ⟨driver, config, name⟩ := task
    simp only [entriesFrom, List.cons_append, List.mem_cons, List.mem_append, List.mem_map,
      Prod.exists, Prod.mk.injEq, ih, FlatKey.text_fusedTask, FlatKey.text_fused]
    constructor
    · rintro (⟨rfl, rfl⟩ | ⟨rfl, rfl⟩ | ⟨k, w, hmem, rfl, rfl⟩ | ⟨position, task, htask, h⟩)
      · exact ⟨0, _, rfl, .inl ⟨.driver, rfl, rfl⟩⟩
      · exact ⟨0, _, rfl, .inl ⟨.name, rfl, rfl⟩⟩
      · exact ⟨0, _, rfl, .inr ⟨k, hmem, rfl⟩⟩
      · refine ⟨position + 1, task, htask, ?_⟩
        rwa [show start + (position + 1) = start + 1 + position by omega]
    · rintro ⟨position, task, htask, h⟩
      cases position with
      | zero =>
        obtain rfl := Option.some.inj htask
        rcases h with ⟨_ | _, rfl, rfl⟩ | ⟨k, hmem, rfl⟩
        · exact .inl ⟨rfl, rfl⟩
        · exact .inr (.inl ⟨rfl, rfl⟩)
        · exact .inr (.inr (.inl ⟨k, v, hmem, rfl, rfl⟩))
      | succ position =>
        refine .inr (.inr (.inr ⟨position, task, htask, ?_⟩))
        rwa [show start + (position + 1) = start + 1 + position by omega] at h

/-- The keys, in the order in which the entries are written. -/
theorem FlatKey.exists_iff {P : FlatKey → Prop} : (∃ k, P k) ↔
    (P .userClass ∨ ∃ name, P (.parameter name)) ∨ P (.driver .driver) ∨ P (.driver .strategy) ∨
      (∃ position, P (.driverComparator position)) ∨ P (.driver .pairComparator) ∨
      (∃ field, P (.driver (.budget field))) ∨ P .sinkParallelism ∨ P .inputCount ∨
      (∃ position field, P (.input position field)) ∨ P .outputCount ∨
      (∃ position field, P (.output position field)) ∨ P .outputSerializer ∨ P .fusedCount ∨
      (∃ position field, P (.fusedTask position field)) ∨
      ∃ position key, P (.fused position key) := by
  constructor
  · rintro ⟨k, h⟩
    rcases k with _ | name | (_ | _ | _ | field) | position | _ | _ | ⟨position, field⟩ | _ |
      ⟨position, field⟩ | _ | _ | ⟨position, field⟩ | ⟨position, key⟩ <;> grind
  · grind

theorem mem_fusedCountEntry {count : Nat} : (key, v) ∈ fusedCountEntry count ↔
    key = FlatKey.fusedCount.text ∧ (if count = 0 then none else some (.ofNat count)) = some v := by
  unfold fusedCountEntry
  by_cases h : count = 0
  · simp [h]
  · simp only [if_neg h, List.mem_singleton, Prod.mk.injEq, Option.some.injEq, eq_comm (a := v)]
    rfl

/-- Where a lookup in the flat form of a fused task finds its entries, the entries of a task are its
settings under their keys. -/
theorem TaskConfig.mem_entries_step {t : TaskConfig}
    (hfused : ∀ task ∈ t.fused, ∀ key v,
      task.config.flatten.get? key = some v ↔ (key, v) ∈ task.config.entries) :
    (key, v) ∈ t.entries ↔ ∃ k : FlatKey, key = k.text ∧ t.read? k = some v := by
  obtain ⟨settings, fused⟩ := t
  have htasks : (key, v) ∈ FusedTask.entriesFrom 0 fused ↔
      (∃ position field, key = (FlatKey.fusedTask position field).text ∧
        (fused[position]?.map fun task => task.read field) = some v) ∨
      ∃ position k, key = (FlatKey.fused position k).text ∧
        (fused[position]?.bind fun task => task.config.flatten.get? k) = some v := by
    simp only [FusedTask.mem_entriesFrom, Nat.zero_add, Option.map_eq_some_iff,
      Option.bind_eq_some_iff]
    constructor
    · rintro ⟨position, task, htask, ⟨field, hkey, hread⟩ | ⟨k, hmem, hkey⟩⟩
      · exact .inl ⟨position, field, hkey, task, htask, hread⟩
      · exact .inr ⟨position, k, hkey, task, htask,
          (hfused task (List.mem_of_getElem? htask) k v).mpr hmem⟩
    · rintro (⟨position, field, hkey, task, htask, hread⟩ | ⟨position, k, hkey, task, htask, hget⟩)
      · exact ⟨position, task, htask, .inl ⟨field, hkey, hread⟩⟩
      · exact ⟨position, task, htask,
          .inr ⟨k, (hfused task (List.mem_of_getElem? htask) k v).mp hget, hkey⟩⟩
  rw [FlatKey.exists_iff]
  cases huser : settings.userCode <;> cases hbudget : settings.driverBudget <;>
    simp only [entries, TaskSettings.entries, huser, hbudget, List.mem_append, List.mem_cons,
      Prod.mk.injEq, mem_optionalEntry, UserCode.mem_entries, Budget.mem_entries,
      mem_comparatorEntries, mem_inputEntries, mem_outputEntries, mem_fusedCountEntry, htasks,
      FlatKey.text_driverBudget, or_assoc, List.not_mem_nil, read?, Option.map_none, Option.map_some,
      Option.bind_none, Option.bind_some, Option.some.injEq, reduceCtorEq, and_false, exists_false,
      false_or, eq_comm (a := v)] <;>
    rfl

end

/-! ## Section 6: Lookups -/

namespace TaskConfig

theorem keysDetermine_entries {t : TaskConfig}
    (h : ∀ key v, (key, v) ∈ t.entries ↔ ∃ k : FlatKey, key = k.text ∧ t.read? k = some v) :
    KeysDetermine t.entries := by
  intro key v w hv hw
  obtain ⟨k, hk, hread⟩ := (h key v).mp hv
  obtain ⟨k', hk', hread'⟩ := (h key w).mp hw
  obtain rfl := FlatKey.text_injective (hk.symm.trans hk')
  exact Option.some.inj (hread.symm.trans hread')

/-- The entries of a task are its settings under their keys. -/
theorem mem_entries (t : TaskConfig) : ∀ key v, (key, v) ∈ t.entries ↔
    ∃ k : FlatKey, key = k.text ∧ t.read? k = some v := by
  induction t using TaskConfig.induction with
  | step t ih =>
    intro key v
    apply mem_entries_step
    intro task htask key v
    exact SortedMap.get?_ofList_eq_some_iff (keysDetermine_entries (ih task htask)) key v

/-- What is found in the flat form is a setting under its key. -/
theorem get?_flatten_eq_some_iff (t : TaskConfig) {key : String} {v : Setting} :
    t.flatten.get? key = some v ↔ ∃ k : FlatKey, key = k.text ∧ t.read? k = some v := by
  rw [← t.mem_entries]
  exact SortedMap.get?_ofList_eq_some_iff (keysDetermine_entries t.mem_entries) key v

/-- What is found under the key of a setting is this setting. -/
theorem get?_flatten (t : TaskConfig) (k : FlatKey) : t.flatten.get? k.text = t.read? k := by
  apply Option.ext
  intro v
  rw [get?_flatten_eq_some_iff]
  constructor
  · rintro ⟨k', htext, h⟩
    rwa [FlatKey.text_injective htext]
  · intro h
    exact ⟨k, rfl, h⟩

/-- What is found under the key of a slot's setting is this setting of the slot. -/
theorem get?_flatten_input {t : TaskConfig} {position : Nat} {slot : InputSlot}
    (h : t.inputs.get? position = some slot) (field : InputField) :
    t.flatten.get? (FlatKey.input position field).text = slot.read? field := by
  rw [t.get?_flatten, read?, h, Option.bind_some]

/-- What is found under a key behind that of a fused task is found in the flat form of this task. -/
theorem get?_flatten_fused {t : TaskConfig} {position : Nat} {task : FusedTask}
    (h : t.fused[position]? = some task) (key : String) :
    t.flatten.get? (FlatKey.fused position key).text = task.config.flatten.get? key := by
  rw [t.get?_flatten, read?, h, Option.bind_some]

end TaskConfig

end Dataflow
