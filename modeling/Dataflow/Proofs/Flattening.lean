import Dataflow.Proofs.Descriptors
import Dataflow.Proofs.FlatKeys
import Dataflow.Proofs.Widening

/-! # What a flat configuration tells

    The flat form of a task is a single list of keys and settings. Every setting
    can be read off it: what is optional from its presence, the number of slots
    and of fused tasks from the settings that each of them has, and what is fused
    at any depth from the keys behind its own.

    Numbers of a binary format may be compared bit by bit, or as numbers, where
    the two zeros are one and what is not a number is nothing. What is proved
    here is proved once for both: it takes of the comparison that it is not
    confused by the widening of thresholds.

    Main statements:
    - `TaskConfig.alike_of_lookups`: tasks whose lookups are alike are alike
    - `TaskConfig.flatten_faithful`: tasks with equal flat forms are equal
-/

namespace Dataflow

/-! ## Section 1: Tasks that are alike -/

section

variable (same : (f : Format) → Binary f → Binary f → Prop)

/-- Two settings are of one kind and hold the same value, floats by the given comparison. -/
def Setting.Alike : Setting → Setting → Prop
  | .bool a, .bool b => a = b
  | .integer a, .integer b => a = b
  | .float a, .float b => same .double a b
  | .string a, .string b => a = b
  | _, _ => False

/-- Two budgets are equal, their thresholds by the given comparison. -/
structure Budget.Alike (b b' : Budget) : Prop where
  memory : b.memory = b'.memory
  maxFanIn : b.maxFanIn = b'.maxFanIn
  threshold : same .single b.threshold b'.threshold

/-- Two user codes are equal, the floats among their parameters by the given comparison. -/
structure UserCode.Alike (u u' : UserCode) : Prop where
  className : u.className = u'.className
  parameters : ∀ name,
    Option.Rel (Setting.Alike same) (u.parameters.get? name) (u'.parameters.get? name)

/-- Two input slots are equal, their budgets by the given comparison. -/
structure InputSlot.Alike (slot slot' : InputSlot) : Prop where
  wires : slot.wires = slot'.wires
  serializer : slot.serializer = slot'.serializer
  localStrategy : slot.localStrategy = slot'.localStrategy
  comparator : slot.comparator = slot'.comparator
  budget : Option.Rel (Budget.Alike same) slot.budget slot'.budget
  dammed : slot.dammed = slot'.dammed
  replayable : slot.replayable = slot'.replayable
  damMemory : slot.damMemory = slot'.damMemory

/-- The settings of two tasks are equal, all floats among them by the given comparison. -/
structure TaskSettings.Alike (t t' : TaskSettings) : Prop where
  userCode : Option.Rel (UserCode.Alike same) t.userCode t'.userCode
  driver : t.driver = t'.driver
  driverStrategy : t.driverStrategy = t'.driverStrategy
  driverComparators : t.driverComparators = t'.driverComparators
  pairComparator : t.pairComparator = t'.pairComparator
  driverBudget : Option.Rel (Budget.Alike same) t.driverBudget t'.driverBudget
  sinkParallelism : t.sinkParallelism = t'.sinkParallelism
  inputs : ∀ i, Option.Rel (InputSlot.Alike same) (t.inputs.get? i) (t'.inputs.get? i)
  outputs : t.outputs = t'.outputs
  outputSerializer : t.outputSerializer = t'.outputSerializer

/-- Two tasks are equal, with all that is fused into them, and floats by the given comparison. -/
inductive TaskConfig.Alike : TaskConfig → TaskConfig → Prop where
  | mk {t t' : TaskConfig} (settings : t.toTaskSettings.Alike same t'.toTaskSettings)
    (drivers : t.fused.map FusedTask.driver = t'.fused.map FusedTask.driver)
    (names : t.fused.map FusedTask.name = t'.fused.map FusedTask.name)
    (configs : ∀ (i : Nat) (task task' : FusedTask), t.fused[i]? = some task → t'.fused[i]? = some task' →
      Alike task.config task'.config) : Alike t t'

/-- Thresholds that are the same after they have been widened were the same before. -/
def SurvivesWidening : Prop :=
  ∀ x y : Binary32, x.isNaN = false → y.isNaN = false →
    same .double x.convert y.convert → same .single x y

end

/-- Two floats stand for the same number. -/
def sameNumbers (f : Format) (x y : Binary f) : Prop := x.sameNumber y = true

/-- Two floats are the same bit by bit. -/
def sameBits (f : Format) (x y : Binary f) : Prop := x = y

/-- Whether two tasks are equal where floats are compared as numbers. -/
def TaskConfig.Agrees (t t' : TaskConfig) : Prop := t.Alike sameNumbers t'

/-- The thresholds of a task, and of what is fused into it, are numbers. -/
inductive TaskConfig.Numeric : TaskConfig → Prop where
  | mk {t : TaskConfig} (driver : ∀ b ∈ t.driverBudget, b.threshold.isNaN = false)
    (inputs : ∀ i, ∀ slot ∈ t.inputs.get? i, ∀ b ∈ slot.budget, b.threshold.isNaN = false)
    (fused : ∀ task ∈ t.fused, Numeric task.config) : Numeric t

/-! ## Section 2: Values told by their settings -/

section

variable {same : (f : Format) → Binary f → Binary f → Prop}

/-- Optional values are equal if their settings tell them apart. -/
theorem eq_of_rel_map {α : Type} {setting : α → Setting} {o o' : Option α}
    (h : Option.Rel (Setting.Alike same) (o.map setting) (o'.map setting))
    (htell : ∀ a b, (setting a).Alike same (setting b) → a = b) : o = o' := by
  cases o <;> cases o' <;> cases h
  · rfl
  · rename_i hab
    exact congrArg some (htell _ _ hab)

theorem Descriptor.eq_of_alike {role : Role} (d d' : Descriptor role)
    (h : d.setting.Alike same d'.setting) : d = d' :=
  setting_inj.mp (congrArg Setting.string h)

theorem ShipStrategy.eq_of_display {s s' : ShipStrategy} (h : s.display = s'.display) : s = s' := by
  revert h
  cases s <;> cases s' <;> decide

theorem LocalStrategy.eq_of_display {s s' : LocalStrategy} (h : s.display = s'.display) :
    s = s' := by
  revert h
  cases s <;> cases s' <;> decide

theorem DriverStrategy.eq_of_name {s s' : DriverStrategy} (h : s.name = s'.name) : s = s' := by
  have hread := s.ofJson?_toJson
  rw [toJson, h, ← toJson, s'.ofJson?_toJson] at hread
  exact (Option.some.inj hread).symm

theorem eq_of_ofNat_toNat {m n : UInt32} (h : Int64.ofNat m.toNat = Int64.ofNat n.toNat) :
    m = n := by
  have hm := m.toNat_lt
  have hn := n.toNat_lt
  have hint := congrArg Int64.toInt h
  rw [Int64.toInt_ofNat_of_lt (by omega), Int64.toInt_ofNat_of_lt (by omega)] at hint
  exact UInt32.toNat_inj.mp (Int.ofNat.inj hint)

theorem eq_of_toInt64 {m n : UInt64} (h : m.toInt64 = n.toInt64) : m = n := by
  have hwords := congrArg Int64.toUInt64 h
  exact hwords

/-- Marks are equal if they are shown alike. -/
theorem eq_of_rel_mark {mark mark' : Bool} (h : Option.Rel (Setting.Alike same)
    (if mark then some (.bool true) else none) (if mark' then some (.bool true) else none)) :
    mark = mark' := by
  cases mark <;> cases mark' <;> first | rfl | cases h

/-! ## Section 3: Budgets and slots -/

theorem Budget.alike_of_read {o o' : Option Budget} (hnumeric : ∀ b ∈ o, b.threshold.isNaN = false)
    (hnumeric' : ∀ b ∈ o', b.threshold.isNaN = false)
    (hsame : SurvivesWidening same)
    (h : ∀ field, Option.Rel (Setting.Alike same) (o.map fun b => b.read field)
      (o'.map fun b => b.read field)) : Option.Rel (Budget.Alike same) o o' := by
  have hmemory := h .memory
  have hfan := h .maxFanIn
  have hthreshold := h .threshold
  cases o <;> cases o'
  · exact .none
  · cases hmemory
  · cases hmemory
  · rename_i b b'
    cases hmemory with | some hmemory =>
    cases hfan with | some hfan =>
    cases hthreshold with | some hthreshold =>
    apply Option.Rel.some
    exact ⟨eq_of_toInt64 hmemory, eq_of_ofNat_toNat hfan,
      hsame _ _ (hnumeric b rfl) (hnumeric' b' rfl) hthreshold⟩

theorem InputSlot.alike_of_read {o o' : Option InputSlot}
    (hnumeric : ∀ slot ∈ o, ∀ b ∈ slot.budget, b.threshold.isNaN = false)
    (hnumeric' : ∀ slot ∈ o', ∀ b ∈ slot.budget, b.threshold.isNaN = false)
    (hsame : SurvivesWidening same)
    (h : ∀ field, Option.Rel (Setting.Alike same) (o.bind fun slot => slot.read? field)
      (o'.bind fun slot => slot.read? field)) : Option.Rel (InputSlot.Alike same) o o' := by
  cases o <;> cases o'
  · exact .none
  · cases h .wires
  · cases h .wires
  · rename_i slot slot'
    apply Option.Rel.some
    constructor
    case wires =>
      cases h .wires with | some h => exact eq_of_ofNat_toNat h
    case serializer => exact eq_of_rel_map (h .serializer) Descriptor.eq_of_alike
    case localStrategy =>
      exact eq_of_rel_map (h .localStrategy) fun _ _ => LocalStrategy.eq_of_display
    case comparator => exact eq_of_rel_map (h .comparator) Descriptor.eq_of_alike
    case budget =>
      exact Budget.alike_of_read (hnumeric slot rfl) (hnumeric' slot' rfl) hsame
        fun field => h (.budget field)
    case dammed => exact eq_of_rel_mark (h .dammed)
    case replayable => exact eq_of_rel_mark (h .replayable)
    case damMemory => exact eq_of_rel_map (h .damMemory) fun _ _ => eq_of_toInt64

theorem OutputSlot.eq_of_read {o o' : Option OutputSlot}
    (h : ∀ field, Option.Rel (Setting.Alike same) (o.bind fun slot => slot.read? field)
      (o'.bind fun slot => slot.read? field)) : o = o' := by
  cases o <;> cases o'
  · rfl
  · cases h .ship
  · cases h .ship
  · rename_i slot slot'
    have hship : slot.ship = slot'.ship := by
      cases h .ship with | some h => exact ShipStrategy.eq_of_display h
    have hcomparator : slot.comparator = slot'.comparator :=
      eq_of_rel_map (h .comparator) Descriptor.eq_of_alike
    cases slot
    cases slot'
    simp_all

theorem UserCode.alike_of_read {o o' : Option UserCode}
    (hclass : Option.Rel (Setting.Alike same) (o.map fun u => .string u.className)
      (o'.map fun u => .string u.className))
    (hparameters : ∀ name, Option.Rel (Setting.Alike same) (o.bind fun u => u.parameters.get? name)
      (o'.bind fun u => u.parameters.get? name)) : Option.Rel (UserCode.Alike same) o o' := by
  cases o <;> cases o'
  · exact .none
  · cases hclass
  · cases hclass
  · cases hclass with | some hclass =>
    exact .some ⟨hclass, hparameters⟩

/-! ## Section 4: Tasks -/

/-- The settings of a task are told by what is found under their keys. -/
theorem TaskSettings.alike_of_read {t t' : TaskConfig} (ht : t.Numeric) (ht' : t'.Numeric)
    (hsame : SurvivesWidening same)
    (h : ∀ k : FlatKey, Option.Rel (Setting.Alike same) (t.read? k) (t'.read? k)) :
    t.toTaskSettings.Alike same t'.toTaskSettings := by
  obtain ⟨hdriver, hinputs, -⟩ := ht
  obtain ⟨hdriver', hinputs', -⟩ := ht'
  constructor
  case userCode => exact UserCode.alike_of_read (h .userClass) fun name => h (.parameter name)
  case driver => exact eq_of_rel_map (h (.driver .driver)) fun _ _ => id
  case driverStrategy =>
    exact eq_of_rel_map (h (.driver .strategy)) fun _ _ => DriverStrategy.eq_of_name
  case driverComparators =>
    apply SortedMap.ext_get?
    intro i
    exact eq_of_rel_map (h (.driverComparator i)) Descriptor.eq_of_alike
  case pairComparator => exact eq_of_rel_map (h (.driver .pairComparator)) Descriptor.eq_of_alike
  case driverBudget =>
    exact Budget.alike_of_read hdriver hdriver' hsame fun field => h (.driver (.budget field))
  case sinkParallelism => exact eq_of_rel_map (h .sinkParallelism) fun _ _ => eq_of_ofNat_toNat
  case inputs =>
    intro i
    exact InputSlot.alike_of_read (hinputs i) (hinputs' i) hsame fun field => h (.input i field)
  case outputs =>
    apply List.ext_getElem?
    intro i
    exact OutputSlot.eq_of_read fun field => h (.output i field)
  case outputSerializer => exact eq_of_rel_map (h .outputSerializer) Descriptor.eq_of_alike

/-- A text of each fused task is told by what is found under its key. -/
theorem FusedTask.map_eq_of_read {tasks tasks' : List FusedTask} {text : FusedTask → String}
    (h : ∀ i : Nat, Option.Rel (Setting.Alike same) (tasks[i]?.map fun task => .string (text task))
      (tasks'[i]?.map fun task => .string (text task))) : tasks.map text = tasks'.map text := by
  apply List.ext_getElem?
  intro i
  have htext : Option.Rel (Setting.Alike same) ((tasks[i]?.map text).map Setting.string)
      ((tasks'[i]?.map text).map Setting.string) := by
    rw [Option.map_map, Option.map_map]
    exact h i
  rw [List.getElem?_map, List.getElem?_map]
  exact eq_of_rel_map htext fun _ _ => id

/-- Tasks whose lookups are alike are alike, at any depth of fusion. -/
theorem TaskConfig.alike_of_lookups (hsame : SurvivesWidening same) {t : TaskConfig} :
    ∀ {t' : TaskConfig}, t.Numeric → t'.Numeric →
      (∀ key, Option.Rel (Setting.Alike same) (t.flatten.get? key) (t'.flatten.get? key)) →
      t.Alike same t' := by
  induction t using TaskConfig.induction with
  | step t ih =>
    intro t' ht ht' h
    have hread : ∀ k : FlatKey, Option.Rel (Setting.Alike same) (t.read? k) (t'.read? k) := by
      intro k
      rw [← t.get?_flatten, ← t'.get?_flatten]
      exact h k.text
    apply TaskConfig.Alike.mk
    case settings => exact TaskSettings.alike_of_read ht ht' hsame hread
    case drivers => exact FusedTask.map_eq_of_read fun i => hread (.fusedTask i .driver)
    case names => exact FusedTask.map_eq_of_read fun i => hread (.fusedTask i .name)
    case configs =>
      intro i task task' htask htask'
      obtain ⟨-, -, hfused⟩ := ht
      obtain ⟨-, -, hfused'⟩ := ht'
      have hmem := List.mem_of_getElem? htask
      apply ih task hmem (hfused task hmem) (hfused' task' (List.mem_of_getElem? htask'))
      intro key
      rw [← get?_flatten_fused htask, ← get?_flatten_fused htask']
      exact h _

end

/-! ## Section 5: Floats bit by bit -/

theorem survivesWidening_sameBits : SurvivesWidening sameBits :=
  fun _ _ hx hy => Binary.convert_inj hx hy

theorem Setting.alike_sameBits {v w : Setting} : v.Alike sameBits w ↔ v = w := by
  cases v <;> cases w <;> simp [Alike, sameBits]

theorem eq_of_rel {α : Type} {r : α → α → Prop} {o o' : Option α} (h : Option.Rel r o o')
    (heq : ∀ a b, r a b → a = b) : o = o' := by
  cases h with
  | some h => exact congrArg some (heq _ _ h)
  | none => rfl

theorem Budget.Alike.eq {b b' : Budget} (h : b.Alike sameBits b') : b = b' := by
  obtain ⟨hmemory, hfan, hthreshold⟩ := h
  cases b
  cases b'
  simp_all [sameBits]

theorem UserCode.Alike.eq {u u' : UserCode} (h : u.Alike sameBits u') : u = u' := by
  obtain ⟨hclass, hparameters⟩ := h
  have heq : u.parameters = u'.parameters := by
    apply SortedMap.ext_get?
    intro name
    exact eq_of_rel (hparameters name) fun _ _ => Setting.alike_sameBits.mp
  cases u
  cases u'
  simp_all

theorem InputSlot.Alike.eq {slot slot' : InputSlot} (h : slot.Alike sameBits slot') :
    slot = slot' := by
  have hbudget := eq_of_rel h.budget fun _ _ => Budget.Alike.eq
  obtain ⟨hwires, hserializer, hlocal, hcomparator, -, hdammed, hreplayable, hmemory⟩ := h
  cases slot
  cases slot'
  simp_all

theorem TaskSettings.Alike.eq {t t' : TaskSettings} (h : t.Alike sameBits t') : t = t' := by
  have huser := eq_of_rel h.userCode fun _ _ => UserCode.Alike.eq
  have hbudget := eq_of_rel h.driverBudget fun _ _ => Budget.Alike.eq
  have hinputs : t.inputs = t'.inputs := by
    apply SortedMap.ext_get?
    intro i
    exact eq_of_rel (h.inputs i) fun _ _ => InputSlot.Alike.eq
  obtain ⟨-, hdriver, hstrategy, hcomparators, hpair, -, hparallelism, -, houtputs, hserializer⟩ := h
  cases t
  cases t'
  simp_all

theorem TaskConfig.Alike.eq {t t' : TaskConfig} (h : t.Alike sameBits t') : t = t' := by
  induction h with
  | @mk t t' settings drivers names configs ih =>
    have hfused : t.fused = t'.fused := by
      apply List.ext_getElem?
      intro i
      have hdriver := congrArg (fun texts => texts[i]?) drivers
      have hname := congrArg (fun texts => texts[i]?) names
      simp only [List.getElem?_map] at hdriver hname
      cases htask : t.fused[i]? <;> cases htask' : t'.fused[i]?
      · rfl
      · simp [htask, htask'] at hdriver
      · simp [htask, htask'] at hdriver
      · rename_i task task'
        have hconfig := ih i task task' htask htask'
        rw [htask, htask'] at hdriver hname
        cases task
        cases task'
        simp_all
    have hsettings := settings.eq
    cases t
    cases t'
    simp_all

/-! ## Section 6: Floats as numbers -/

theorem survivesWidening_sameNumbers : SurvivesWidening sameNumbers :=
  fun _ _ _ _ => Binary.sameNumber_of_convert

theorem Setting.alike_of_agrees {v w : Setting} (h : v.agrees w = true) :
    v.Alike sameNumbers w := by
  cases v <;> cases w <;> simp_all [agrees, Alike, sameNumbers]

/-- What agreeing configurations have under a key is alike. -/
theorem Configuration.alike_of_agrees {c d : Configuration} (h : c.agrees d = true) (key : String) :
    Option.Rel (Setting.Alike sameNumbers) (c.get? key) (d.get? key) := by
  simp only [agrees, Bool.and_eq_true, beq_iff_eq, SortedMap.size] at h
  obtain ⟨hsize, hall⟩ := h
  have hentries : ∀ l m : List (String × Setting), l.length = m.length →
      ((l.zip m).all fun e => e.1.1 == e.2.1 && e.1.2.agrees e.2.2) = true →
      Option.Rel (Setting.Alike sameNumbers)
        ((l.find? fun e => compare e.1 key == .eq).map Prod.snd)
        ((m.find? fun e => compare e.1 key == .eq).map Prod.snd) := by
    intro l
    induction l with
    | nil =>
      intro m hlength _
      obtain rfl := List.length_eq_zero_iff.mp hlength.symm
      exact .none
    | cons e l ih =>
      intro m hlength hall
      cases m with
      | nil => simp at hlength
      | cons e' m =>
        simp only [List.zip_cons_cons, List.all_cons, Bool.and_eq_true, beq_iff_eq] at hall
        obtain ⟨⟨hkey, hagrees⟩, hrest⟩ := hall
        rw [List.find?_cons, List.find?_cons, hkey]
        cases compare e'.1 key == .eq with
        | true => exact .some (Setting.alike_of_agrees hagrees)
        | false => exact ih m (Nat.succ.inj hlength) hrest
  exact hentries _ _ hsize hall

/-! ## Section 7: Flat forms -/

/-- Tasks with equal flat forms are equal, at any depth of fusion: up to the comparison of floats as
numbers if the flat forms are equal up to it, and altogether if they are altogether. Thresholds have
to be numbers, since all that are none are widened to one pattern. -/
theorem TaskConfig.flatten_faithful {t t' : TaskConfig} (ht : t.Numeric) (ht' : t'.Numeric) :
    (t.flatten.agrees t'.flatten = true → t.Agrees t') ∧ (t.flatten = t'.flatten → t = t') := by
  constructor
  · intro h
    exact alike_of_lookups survivesWidening_sameNumbers ht ht' (Configuration.alike_of_agrees h)
  · intro h
    apply Alike.eq
    apply alike_of_lookups survivesWidening_sameBits ht ht'
    intro key
    rw [h]
    cases t'.flatten.get? key with
    | some v => exact .some (Setting.alike_sameBits.mpr rfl)
    | none => exact .none

/-- A task into which a sort with a threshold is fused. -/
def sorting (threshold : Binary32) : TaskConfig :=
  { driver := some "MapDriver"
    outputs := [{ ship := .partitionHash }]
    fused := [{
      driver := "ChainedCombineDriver"
      name := "combine"
      config := { driverBudget := some { memory := 1024, maxFanIn := 128, threshold } } }] }

theorem numeric_sorting {threshold : Binary32} (h : threshold.isNaN = false) :
    (sorting threshold).Numeric := by
  constructor
  case driver => exact fun b hb => absurd hb (by simp [sorting])
  case inputs => exact fun i slot hslot => absurd hslot (by simp [sorting])
  case fused =>
    intro task htask
    obtain rfl := List.mem_singleton.mp htask
    constructor
    case driver =>
      intro b hb
      obtain rfl := Option.some.inj hb
      exact h
    case inputs => exact fun i slot hslot => absurd hslot (by simp)
    case fused => exact fun task htask => absurd htask (by simp)

/-- With thresholds that are zeros of different signs the flat forms and the tasks agree, and neither
are equal. -/
theorem sorting_faithful :
    let t := sorting (.ofMagnitude false 0)
    let t' := sorting (.ofMagnitude true 0)
    t.flatten.agrees t'.flatten = true ∧ t.Agrees t' ∧ t.flatten ≠ t'.flatten := by
  have hnumeric : (sorting (.ofMagnitude false 0)).Numeric := numeric_sorting (by decide)
  have hnumeric' : (sorting (.ofMagnitude true 0)).Numeric := numeric_sorting (by decide)
  have hfaithful := TaskConfig.flatten_faithful hnumeric hnumeric'
  have hagrees : (sorting (.ofMagnitude false 0)).flatten.agrees
      (sorting (.ofMagnitude true 0)).flatten = true := by
    decide +kernel
  refine ⟨hagrees, hfaithful.1 hagrees, fun hflat => ?_⟩
  have heq := congrArg (fun t => t.fused.map fun task => task.config.driverBudget)
    (hfaithful.2 hflat)
  exact absurd heq (by decide)

end Dataflow
