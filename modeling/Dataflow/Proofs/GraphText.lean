import Dataflow.Job.Encoding
import Dataflow.Proofs.Records

/-! # Job graphs read from their encodings

    A graph without floats and budgets is read back from its encoding, however
    deep tasks are nested in it: a record of fused tasks weighs more than each
    of them, so the decoder reaches the innermost one. A text may nest brackets
    deeper than its reader follows them; then something of the encoding is left
    out, and as the decoder looks at all of it, no graph is read. The text that
    the fingerprint digests holds name, configuration and vertices, so two graphs
    have one such text only if these agree.

    Main statements:
    - `TaskConfig.carries`: a task is read back with all tasks nested in it
    - `JobId.read?_display`: an identifier is read back from its text
    - `JobGraph.ofText?_toText`: which graphs are read back from their texts
    - `JobGraph.fingerprintText_eq_iff`: the text that a fingerprint digests says
      what name, configuration and vertices are
-/

namespace Dataflow

/-! ## Section 1: Slots -/

theorem naturalKey?_toString {n : Nat} (h : n < UInt64.size) : Json.naturalKey? (toString n) = some n := by
  have htext : (toString n).toList = Nat.toDigits 10 n := by
    rw [Nat.toString_eq_ofList_toDigits, String.toList_ofList]
  have hdigits : (Nat.toDigits 10 n).all Char.isDigit = true :=
    List.all_eq_true.mpr fun c hc => Nat.isDigit_of_mem_toDigits (by decide) (by decide) hc
  have hread : readDigits? (toString n).toList = some n := by
    rw [htext, readDigits?, if_pos ⟨Nat.toDigits_ne_nil, hdigits⟩, ofDigits,
      Nat.ofDigitChars_ten_toDigits]
  rw [Json.naturalKey?, hread]
  exact if_pos ⟨rfl, h⟩

/-- A budget holds nothing but numbers. -/
theorem Budget.whole (b : Budget) : Json.Whole (Json.required? Budget.ofJson?) b.toJson := by
  refine .record (fun _ => rfl) rfl (by decide) fun n _ _ => ?_
  simp

/-- An input slot is read back if it has no budget. -/
theorem InputSlot.carries {slot : InputSlot} (h : slot.budget = none) :
    Json.Carries (Json.required? InputSlot.ofJson?) slot.toJson slot := by
  have hwires := Json.carries_uint32 slot.wires
  have hserializer := Descriptor.carries_optional slot.serializer
  have hlocal : Json.Carries (Json.optional? LocalStrategy.ofJson?) _ slot.localStrategy :=
    .optional rfl fun s _ => s.carries
  have hcomparator := Descriptor.carries_optional slot.comparator
  have hbudget : Json.Carries (Json.optional? Budget.ofJson?) (.ofOption Budget.toJson slot.budget) _ :=
    .absent h
  have hdammed := Json.carries_bool slot.dammed
  have hreplayable := Json.carries_bool slot.replayable
  have hmemory : Json.Carries (Json.optional? Json.uint64?) _ slot.damMemory :=
    .optional rfl fun m _ => Json.carries_uint64 m
  have hnodup : fieldNames.Nodup := by decide
  refine ⟨.object ?_, ?_⟩
  · simp [hwires.exact, hserializer.exact, hlocal.exact, hcomparator.exact, hbudget.exact,
      hdammed.exact, hreplayable.exact, hmemory.exact]
  · show ofJson? slot.toJson = some slot
    rw [fieldNames] at hnodup
    simp [ofJson?, toJson, fieldNames, Json.record?_object, hnodup, hwires.decoded,
      hserializer.decoded, hlocal.decoded, hcomparator.decoded, hbudget.decoded, hdammed.decoded,
      hreplayable.decoded, hmemory.decoded]

theorem InputSlot.whole (slot : InputSlot) :
    Json.Whole (Json.required? InputSlot.ofJson?) slot.toJson := by
  have hbudget : Json.Whole (Json.optional? Budget.ofJson?) (.ofOption Budget.toJson slot.budget) :=
    .optional fun b _ => b.whole
  refine .record (fun _ => rfl) rfl (by decide) fun n _ h => ?_
  simp only [List.map_cons, List.map_nil, Option.bind_eq_bind, Option.bind_eq_some_iff] at h
  obtain ⟨_, -, _, hserializer', _, -, _, hcomparator', _, hbudget', -⟩ := h
  have hserializer := Descriptor.whole_optional _ n _ hserializer'
  have hcomparator := Descriptor.whole_optional _ n _ hcomparator'
  simp [LocalStrategy.toJson, hserializer, hcomparator, hbudget n _ hbudget']

theorem OutputSlot.carries (slot : OutputSlot) :
    Json.Carries (Json.required? OutputSlot.ofJson?) slot.toJson slot := by
  have hship := slot.ship.carries
  have hcomparator := Descriptor.carries_optional slot.comparator
  have hnodup : ["ship_strategy", "comparator"].Nodup := by decide
  refine ⟨.object (by simp [hship.exact, hcomparator.exact]), ?_⟩
  show ofJson? slot.toJson = some slot
  simp [ofJson?, toJson, Json.record?_object, hnodup, hship.decoded, hcomparator.decoded]

theorem OutputSlot.whole (slot : OutputSlot) :
    Json.Whole (Json.required? OutputSlot.ofJson?) slot.toJson := by
  refine .record (fun _ => rfl) rfl (by decide) fun n _ h => ?_
  simp only [List.map_cons, List.map_nil, Option.bind_eq_bind, Option.bind_eq_some_iff] at h
  obtain ⟨_, -, _, hread, -⟩ := h
  have hcomparator := Descriptor.whole_optional _ n _ hread
  simp [ShipStrategy.toJson, hcomparator]

/-! ## Section 2: Tasks -/

/-- The settings of a task by itself hold neither floats nor budgets. -/
structure TaskSettings.Plain (t : TaskSettings) : Prop where
  /-- The parameters of the user code hold no float. -/
  parameters : ∀ u ∈ t.userCode, u.parameters.Floatless
  /-- There is no budget. -/
  budgets : t.budgets = []

/-- The positions that slots are kept under fit 64-bit words. -/
structure TaskSettings.Addressable (t : TaskSettings) : Prop where
  /-- Those of comparators. -/
  comparators : ∀ e ∈ t.driverComparators.entries, e.1 < UInt64.size
  /-- Those of input slots. -/
  inputs : ∀ e ∈ t.inputs.entries, e.1 < UInt64.size

namespace TaskSettings

variable {t : TaskSettings}

theorem Plain.driverBudget (h : t.Plain) : t.driverBudget = none := by
  have hnil := (List.append_eq_nil_iff.mp h.budgets).1
  simpa using hnil

theorem Plain.inputBudget (h : t.Plain) {e : Nat × InputSlot} (he : e ∈ t.inputs.entries) :
    e.2.budget = none :=
  List.filterMap_eq_nil_iff.mp (List.append_eq_nil_iff.mp h.budgets).2 e he

/-- The fields of a task's own settings are read back. -/
theorem ofFields?_members (hplain : t.Plain) (hsize : t.Addressable) :
    (∀ m ∈ t.members, m.2.Exact) ∧ ofFields? (t.members.map fun m => some m.2) = some t := by
  have hcode : Json.Carries (Json.optional? UserCode.ofJson?) _ t.userCode :=
    .optional rfl fun u hu => UserCode.carries (hplain.parameters u hu)
  have hdriver : Json.Carries (Json.optional? Json.string?) _ t.driver :=
    .optional rfl fun s _ => Json.carries_string s
  have hstrategy : Json.Carries (Json.optional? DriverStrategy.ofJson?) _ t.driverStrategy :=
    .optional rfl fun d _ => d.carries
  have hcomparators : Json.Carries (Json.required? (Json.map? Json.naturalKey? Descriptor.ofJson?)) _
      t.driverComparators :=
    .map (fun e he => naturalKey?_toString (hsize.comparators e he)) fun e _ => e.2.carries
  have hpair := Descriptor.carries_optional t.pairComparator
  have hbudget : Json.Carries (Json.optional? Budget.ofJson?)
      (.ofOption Budget.toJson t.driverBudget) _ := .absent hplain.driverBudget
  have hparallelism : Json.Carries (Json.optional? Json.uint32?) _ t.sinkParallelism :=
    .optional rfl fun p _ => Json.carries_uint32 p
  have hinputs : Json.Carries (Json.required? (Json.map? Json.naturalKey? InputSlot.ofJson?)) _
      t.inputs :=
    .map (fun e he => naturalKey?_toString (hsize.inputs e he)) fun e he =>
      InputSlot.carries (hplain.inputBudget he)
  have houtputs := Json.Carries.list (l := t.outputs) fun slot _ => slot.carries
  have hserializer := Descriptor.carries_optional t.outputSerializer
  constructor
  · simp [members, hcode.exact, hdriver.exact, hstrategy.exact, hcomparators.exact, hpair.exact,
      hbudget.exact, hparallelism.exact, hinputs.exact, houtputs.exact, hserializer.exact]
  · simp [members, ofFields?, hcode.decoded, hdriver.decoded, hstrategy.decoded,
      hcomparators.decoded, hpair.decoded, hbudget.decoded, hparallelism.decoded, hinputs.decoded,
      houtputs.decoded, hserializer.decoded]

/-- If the settings of a task are decoded, nothing of their fields was left out. -/
theorem depth_le_of_ofFields? {n : Nat} {s : TaskSettings}
    (h : ofFields? (t.members.map fun m => some (m.2.limited n)) = some s) :
    ∀ m ∈ t.members, m.2.depth ≤ n := by
  have hcode : Json.Whole (Json.optional? UserCode.ofJson?)
      (.ofOption UserCode.toJson t.userCode) := .optional fun u _ => u.whole
  have hcomparators : Json.Whole (Json.required? (Json.map? Json.naturalKey? Descriptor.ofJson?))
      (.ofMap toString Descriptor.toJson t.driverComparators) := .map fun e _ => e.2.whole
  have hbudget : Json.Whole (Json.optional? Budget.ofJson?)
      (.ofOption Budget.toJson t.driverBudget) := .optional fun b _ => b.whole
  have hinputs : Json.Whole (Json.required? (Json.map? Json.naturalKey? InputSlot.ofJson?))
      (.ofMap toString InputSlot.toJson t.inputs) := .map fun e _ => e.2.whole
  have houtputs : Json.Whole (Json.required? (Json.list? OutputSlot.ofJson?))
      (.ofList OutputSlot.toJson t.outputs) := .list fun slot _ => slot.whole
  simp only [members, List.map_cons, List.map_nil, ofFields?, Option.bind_eq_bind,
    Option.bind_eq_some_iff] at h
  obtain ⟨_, hcode', _, -, _, -, _, hcomparators', _, hpair', _, hbudget', _, -, _, hinputs', _,
    houtputs', _, hserializer', -⟩ := h
  have hpair := Descriptor.whole_optional _ n _ hpair'
  have hserializer := Descriptor.whole_optional _ n _ hserializer'
  simp [members, DriverStrategy.toJson, hcode n _ hcode', hcomparators n _ hcomparators', hpair,
    hbudget n _ hbudget', hinputs n _ hinputs', houtputs n _ houtputs', hserializer]

end TaskSettings

/-- The JSON form of a fused task. -/
def FusedTask.toJson (task : FusedTask) : Json :=
  .object [("driver", .string task.driver), ("config", task.config.toJson),
    ("name", .string task.name)]

theorem FusedTask.array_toJsons (tasks : List FusedTask) :
    Json.array (toJsons tasks) = .ofList toJson tasks := by
  have hmap : toJsons tasks = tasks.map toJson := by
    induction tasks with
    | nil => rw [toJsons, List.map_nil]
    | cons task tasks ih =>
      obtain ⟨driver, config, name⟩ := task
      rw [toJsons, List.map_cons, ih, toJson]
  rw [hmap, Json.ofList]

theorem TaskConfig.toJson_eq (t : TaskConfig) :
    t.toJson = .object (t.members ++ [("chained_tasks", .ofList FusedTask.toJson t.fused)]) := by
  obtain ⟨settings, fused⟩ := t
  rw [toJson, FusedTask.array_toJsons]

namespace Json

theorem weight_pos (j : Json) : 0 < j.weight := by
  unfold weight
  split <;> omega

theorem weight_le_itemsWeight {item : Json} {items : List Json} (h : item ∈ items) :
    item.weight ≤ itemsWeight items := by
  induction items with
  | nil => simp at h
  | cons first items ih =>
    rw [itemsWeight]
    rcases List.mem_cons.mp h with rfl | h
    · exact Nat.le_add_right _ _
    · exact Nat.le_trans (ih h) (Nat.le_add_left _ _)

theorem weight_le_membersWeight {m : String × Json} {members : List (String × Json)}
    (h : m ∈ members) : m.2.weight ≤ membersWeight members := by
  induction members with
  | nil => simp at h
  | cons first members ih =>
    rw [membersWeight]
    rcases List.mem_cons.mp h with rfl | h
    · exact Nat.le_add_right _ _
    · exact Nat.le_trans (ih h) (Nat.le_add_left _ _)

end Json

/-- The encoding of a task weighs more than those of the tasks fused into it. -/
theorem FusedTask.weight_lt {t : TaskConfig} {task : FusedTask} (h : task ∈ t.fused) :
    task.toJson.weight < t.toJson.weight := by
  have hitem := Json.weight_le_itemsWeight (List.mem_map_of_mem (f := toJson) h)
  have harray : (Json.ofList toJson t.fused).weight = Json.itemsWeight (t.fused.map toJson) + 1 := by
    rw [Json.ofList, Json.weight]
  have hmember : (Json.ofList toJson t.fused).weight ≤ _ := Json.weight_le_membersWeight
    (List.mem_append_right t.members (List.mem_singleton_self ("chained_tasks", .ofList toJson t.fused)))
  rw [t.toJson_eq, Json.weight]
  omega

/-- The encoding of a fused task weighs more than that of its configuration. -/
theorem FusedTask.config_weight_lt (task : FusedTask) :
    task.config.toJson.weight < task.toJson.weight := by
  rw [toJson, Json.weight]
  exact Nat.lt_succ_of_le
    (Json.weight_le_membersWeight (m := ("config", task.config.toJson)) (by simp))

/-- A fused task is read back if its configuration is. -/
theorem FusedTask.carries {task : FusedTask} {depth : Nat}
    (hconfig : Json.Carries (Json.required? (TaskConfig.ofJsonWithin? depth)) task.config.toJson
      task.config) :
    Json.Carries (Json.required? (ofJsonWithin? (depth + 1))) task.toJson task := by
  obtain ⟨driver, config, name⟩ := task
  have hdriver := Json.carries_string driver
  have hname := Json.carries_string name
  have hnodup : ["driver", "config", "name"].Nodup := by decide
  refine ⟨.object (by simp [hdriver.exact, hconfig.exact, hname.exact]), ?_⟩
  show ofJsonWithin? (depth + 1) (toJson ⟨driver, config, name⟩) = _
  simp [ofJsonWithin?, toJson, Json.record?_object, hnodup, hdriver.decoded, hconfig.decoded,
    hname.decoded]

theorem TaskConfig.record?_toJson (t : TaskConfig) :
    Json.record? (TaskSettings.fieldNames ++ ["chained_tasks"]) 0 t.toJson =
      some (t.members.map (fun m => some m.2) ++ [some (.ofList FusedTask.toJson t.fused)]) := by
  have hnodup : (TaskSettings.fieldNames ++ ["chained_tasks"]).Nodup := by decide
  rw [t.toJson_eq, Json.record?_object _ hnodup, List.map_append]
  · rfl
  · rfl

/-- A task is read back if its own settings and the tasks fused into it are. -/
theorem TaskConfig.carries_of_fused {t : TaskConfig} {depth : Nat}
    (own : t.Plain ∧ t.Addressable)
    (hfused : Json.Carries (Json.required? (Json.list? (FusedTask.ofJsonWithin? depth)))
      (.ofList FusedTask.toJson t.fused) t.fused) :
    Json.Carries (Json.required? (ofJsonWithin? (depth + 1))) t.toJson t := by
  obtain ⟨hexact, hfields⟩ := TaskSettings.ofFields?_members own.1 own.2
  constructor
  · rw [t.toJson_eq]
    apply Json.Exact.object
    intro m hm
    rcases List.mem_append.mp hm with hm | hm
    · exact hexact m hm
    · obtain rfl := List.mem_singleton.mp hm
      exact hfused.exact
  · show ofJsonWithin? (depth + 1) t.toJson = some t
    rw [ofJsonWithin?, t.record?_toJson]
    simp only [List.dropLast_concat, List.getLast?_concat, hfields, hfused.decoded,
      Option.bind_eq_bind, Option.bind_some]
    cases t
    rfl

/-- A task is read back with all tasks nested in it. -/
theorem TaskConfig.carries {t : TaskConfig} (h : t.Everywhere fun s => s.Plain ∧ s.Addressable)
    {depth : Nat} (hdepth : t.toJson.weight ≤ depth) :
    Json.Carries (Json.required? (ofJsonWithin? depth)) t.toJson t := by
  induction h generalizing depth with
  | @intro t own _ ih =>
    have hpos := t.toJson.weight_pos
    obtain ⟨depth, rfl⟩ := Nat.exists_eq_succ_of_ne_zero (n := depth) (by omega)
    apply carries_of_fused own
    apply Json.Carries.list
    intro task htask
    -- One level for the record of the fused task, and one for its configuration.
    have htaskLt := FusedTask.weight_lt htask
    have hconfigLt := task.config_weight_lt
    obtain ⟨depth, rfl⟩ := Nat.exists_eq_succ_of_ne_zero (n := depth) (by omega)
    exact FusedTask.carries (ih task htask (by omega))

/-- A task is decoded as a whole if the tasks fused into it are. -/
theorem TaskConfig.whole_of_fused {t : TaskConfig} {depth : Nat}
    (hfused : Json.Whole (Json.required? (Json.list? (FusedTask.ofJsonWithin? depth)))
      (.ofList FusedTask.toJson t.fused)) :
    Json.Whole (Json.required? (ofJsonWithin? (depth + 1))) t.toJson := by
  have hnodup : (TaskSettings.fieldNames ++ ["chained_tasks"]).Nodup := by decide
  rw [t.toJson_eq]
  refine .record (fun _ => rfl) rfl hnodup fun n _ h => ?_
  simp only [List.map_append, List.map_cons, List.map_nil, List.dropLast_concat,
    List.getLast?_concat, Option.bind_eq_bind, Option.bind_eq_some_iff, Option.some.injEq,
    exists_eq_left'] at h
  obtain ⟨_, hsettings, _, htasks, -⟩ := h
  intro m hm
  rcases List.mem_append.mp hm with hm | hm
  · exact TaskSettings.depth_le_of_ofFields? hsettings m hm
  · obtain rfl := List.mem_singleton.mp hm
    exact hfused n _ htasks

/-- A fused task is decoded as a whole if its configuration is. -/
theorem FusedTask.whole_of_config {task : FusedTask} {depth : Nat}
    (hconfig : Json.Whole (Json.required? (TaskConfig.ofJsonWithin? depth)) task.config.toJson) :
    Json.Whole (Json.required? (ofJsonWithin? (depth + 1))) task.toJson := by
  have hnodup : ["driver", "config", "name"].Nodup := by decide
  refine .record (fun _ => rfl) rfl hnodup fun n _ h => ?_
  simp only [List.map_cons, List.map_nil, Option.bind_eq_bind, Option.bind_eq_some_iff] at h
  obtain ⟨_, -, _, hread, -⟩ := h
  simp [hconfig n _ hread]

/-- Tasks are decoded as a whole, however deep nesting is followed. -/
theorem TaskConfig.whole_within (depth : Nat) :
    (∀ t : TaskConfig, Json.Whole (Json.required? (ofJsonWithin? depth)) t.toJson) ∧
      ∀ task : FusedTask,
        Json.Whole (Json.required? (FusedTask.ofJsonWithin? depth)) task.toJson := by
  induction depth with
  | zero => exact ⟨fun _ _ _ h => (nomatch h), fun _ _ _ h => (nomatch h)⟩
  | succ depth ih =>
    exact ⟨fun t => whole_of_fused (.list fun task _ => ih.2 task),
      fun task => FusedTask.whole_of_config (ih.1 task.config)⟩

theorem TaskConfig.whole (t : TaskConfig) :
    Json.Whole (Json.required? TaskConfig.ofJson?) t.toJson :=
  fun n _ h => (whole_within _).1 t n _ h

/-! ## Section 3: Identifiers -/

namespace JobId

/-- Hyphens between pieces are taken out again. -/
theorem unhyphenate?_hyphenate {lengths : List Nat} {text : List Char} (hne : lengths ≠ [])
    (hlength : text.length = lengths.sum) :
    unhyphenate? lengths (hyphenate lengths text) = some text := by
  fun_induction hyphenate lengths text with
  | case1 => exact absurd rfl hne
  | case2 n text =>
    rw [List.sum_singleton] at hlength
    rw [unhyphenate?, List.take_of_length_le (Nat.le_of_eq hlength), if_pos hlength]
  | case3 n rest text hrest ih =>
    rw [List.sum_cons] at hlength
    have htake : (text.take n).length = n := by
      rw [List.length_take]
      omega
    have hdrop : (text.drop n).length = rest.sum := by
      rw [List.length_drop]
      omega
    have htail : (text.take n ++ '-' :: hyphenate rest (text.drop n)).drop n =
        '-' :: hyphenate rest (text.drop n) := List.drop_left' htake
    have hhead : (text.take n ++ '-' :: hyphenate rest (text.drop n)).take n = text.take n :=
      List.take_left' htake
    rw [unhyphenate?, htail]
    · simp only [ih hrest hdrop, hhead, Option.map_some, List.take_append_drop]
    · exact hrest

theorem digit?_digitChar (d : Fin 16) : digit? (Nat.digitChar d.val) = some d := by
  revert d
  decide

/-- Digits in groups are neither bare nor behind a scheme. -/
theorem bareDigits?_hyphenate {digits : List (Fin 16)} (h : digits.length = 32) :
    bareDigits? (hyphenate groups (digits.map fun d => Nat.digitChar d.val)) =
      some (digits.map fun d => Nat.digitChar d.val) := by
  have hlong : (hyphenate groups (digits.map fun d => Nat.digitChar d.val)).length = 36 := by
    simp [hyphenate, groups, h]
  have hscheme : ((hyphenate groups (digits.map fun d => Nat.digitChar d.val)).take 9).map
      Char.toLower ≠ "urn:uuid:".toList := by
    -- The scheme does not begin with a digit.
    have hfirst : ∀ d : Fin 16, (Nat.digitChar d.val).toLower ≠ 'u' := by decide
    obtain ⟨d, rest, rfl⟩ := List.exists_cons_of_length_eq_add_one h
    exact fun heq => hfirst d (List.cons.inj heq).1
  rw [bareDigits?, if_neg (by omega), if_neg (by omega), if_neg hscheme]
  exact unhyphenate?_hyphenate (by decide) (by simp [groups, h])

/-- An identifier is read back from its text. -/
theorem read?_display (j : JobId) : read? j.display = some j := by
  have hdigits : (j.digits.toList.map fun d => Nat.digitChar d.val).mapM digit? =
      some j.digits.toList := Json.mapM_map_eq_some fun d _ => digit?_digitChar d
  rw [read?, display, String.toList_ofList, bareDigits?_hyphenate j.digits.length_toList,
    Option.bind_eq_bind, Option.bind_some, ofDigits?, hdigits]
  exact dif_pos j.digits.length_toList

theorem carries (j : JobId) : Json.Carries (Json.required? JobId.ofJson?) j.toJson j :=
  ⟨.string _, j.read?_display⟩

end JobId

/-! ## Section 4: Graphs -/

theorem Transport.carries (t : Transport) :
    Json.Carries (Json.required? Transport.ofJson?) t.toJson t :=
  ⟨.string _, by cases t <;> decide⟩

theorem Pattern.carries (p : Pattern) : Json.Carries (Json.required? Pattern.ofJson?) p.toJson p :=
  ⟨.string _, by cases p <;> decide⟩

theorem VertexKind.carries (k : VertexKind) :
    Json.Carries (Json.required? VertexKind.ofJson?) k.toJson k :=
  ⟨.string _, by cases k <;> decide⟩

theorem TaskClass.carries (c : TaskClass) :
    Json.Carries (Json.required? TaskClass.ofJson?) c.toJson c :=
  ⟨.string _, by cases c <;> decide⟩

/-- A wire is read back if its target fits 64 bits. -/
theorem Wire.carries {w : Wire} (h : w.target.index < UInt64.size) :
    Json.Carries (Json.required? Wire.ofJson?) w.toJson w := by
  have htarget := Handle.carries h
  have htransport := w.transport.carries
  have hpattern := w.pattern.carries
  have hnodup : ["target", "channel_type", "pattern"].Nodup := by decide
  refine ⟨.object (by simp [htarget.exact, htransport.exact, hpattern.exact]), ?_⟩
  show ofJson? w.toJson = some w
  simp [ofJson?, toJson, Json.record?_object, hnodup, htarget.decoded, htransport.decoded,
    hpattern.decoded]

/-- A wire holds nothing but numbers and names. -/
theorem Wire.whole (w : Wire) : Json.Whole (Json.required? Wire.ofJson?) w.toJson := by
  refine .record (fun _ => rfl) rfl (by decide) fun n _ _ => ?_
  simp [Handle.toJson, Transport.toJson, Pattern.toJson]

/-- The handles of a vertex and all positions in its configuration fit 64-bit words. -/
structure Vertex.Addressable (v : Vertex) : Prop where
  /-- Its own handle. -/
  id : v.id.index < UInt64.size
  /-- The handle of the vertex whose instances it shares. -/
  sharesWith : v.sharesWith.index < UInt64.size
  /-- The targets of its wires. -/
  wires : ∀ w ∈ v.wires, w.target.index < UInt64.size
  /-- The positions of slots. -/
  config : v.config.Everywhere TaskSettings.Addressable

/-- A vertex is read back with its task. -/
theorem Vertex.carries {v : Vertex} (hplain : v.config.Everywhere TaskSettings.Plain)
    (hsize : v.Addressable) : Json.Carries (Json.required? Vertex.ofJson?) v.toJson v := by
  have hid := Handle.carries hsize.id
  have hname := Json.carries_string v.name
  have hkind := v.kind.carries
  have hclass := v.taskClass.carries
  have hparallelism := Json.carries_uint32 v.parallelism
  have hsubtasks : Json.Carries (Json.optional? Json.uint32?) _ v.subtasksPerInstance :=
    .optional rfl fun n _ => Json.carries_uint32 n
  have hnested := TaskConfig.carries (hplain.and hsize.config) (Nat.le_refl _)
  have hconfig : Json.Carries (Json.required? TaskConfig.ofJson?) v.config.toJson v.config :=
    ⟨hnested.exact, hnested.decoded⟩
  have hinstance : Json.Carries (Json.optional? Json.string?) _ v.instanceType :=
    .optional rfl fun s _ => Json.carries_string s
  have hshares := Handle.carries hsize.sharesWith
  have hwires := Json.Carries.list fun w hw => Wire.carries (hsize.wires w hw)
  have hnodup : fieldNames.Nodup := by decide
  refine ⟨.object ?_, ?_⟩
  · simp [hid.exact, hname.exact, hkind.exact, hclass.exact, hparallelism.exact, hsubtasks.exact,
      hconfig.exact, hinstance.exact, hshares.exact, hwires.exact]
  · show ofJson? v.toJson = some v
    rw [fieldNames] at hnodup
    simp [ofJson?, toJson, fieldNames, Json.record?_object, hnodup, hid.decoded, hname.decoded,
      hkind.decoded, hclass.decoded, hparallelism.decoded, hsubtasks.decoded, hconfig.decoded,
      hinstance.decoded, hshares.decoded, hwires.decoded]

theorem Vertex.whole (v : Vertex) : Json.Whole (Json.required? Vertex.ofJson?) v.toJson := by
  have hwires : Json.Whole (Json.required? (Json.list? Wire.ofJson?))
      (.ofList Wire.toJson v.wires) := .list fun w _ => w.whole
  refine .record (fun _ => rfl) rfl (by decide) fun n _ h => ?_
  simp only [List.map_cons, List.map_nil, Option.bind_eq_bind, Option.bind_eq_some_iff] at h
  obtain ⟨_, -, _, -, _, -, _, -, _, -, _, -, _, hconfig', _, -, _, -, _, hwires', -⟩ := h
  have hconfig := v.config.whole n _ hconfig'
  simp [Handle.toJson, VertexKind.toJson, TaskClass.toJson, hconfig, hwires n _ hwires']

namespace JobGraph

/-- No setting is a float and there is no budget, in the graph and in its tasks at any depth. -/
structure Plain (g : JobGraph) : Prop where
  /-- The settings of the whole job. -/
  config : g.config.Floatless
  /-- The tasks. -/
  tasks : ∀ v ∈ g.vertices, v.config.Everywhere TaskSettings.Plain

/-- All handles and positions fit 64-bit words. -/
def Addressable (g : JobGraph) : Prop := ∀ v ∈ g.vertices, v.Addressable

variable {g g' : JobGraph}

theorem carries_vertices (hplain : g.Plain) (hsize : g.Addressable) :
    Json.Carries (Json.required? (Json.list? Vertex.ofJson?)) g.verticesJson g.vertices.toList :=
  .list fun v hv => Vertex.carries (hplain.tasks v (Array.mem_toList_iff.mp hv))
    (hsize v (Array.mem_toList_iff.mp hv))

theorem exact_structureMembers (hplain : g.Plain) (hsize : g.Addressable) :
    (Json.object g.structureMembers).Exact := by
  have hname := Json.carries_string g.name
  have hconfig := Configuration.carries hplain.config
  have hvertices := carries_vertices hplain hsize
  exact .object (by simp [structureMembers, hname.exact, hconfig.exact, hvertices.exact])

theorem exact_toJson (hplain : g.Plain) (hsize : g.Addressable) : g.toJson.Exact := by
  cases exact_structureMembers hplain hsize with
  | object hmembers => exact .object (List.forall_mem_cons.mpr ⟨g.id.carries.exact, hmembers⟩)

/-- A graph is read back from its encoding. -/
theorem ofJson?_toJson (hplain : g.Plain) (hsize : g.Addressable) : ofJson? g.toJson = some g := by
  have hid := g.id.carries
  have hname := Json.carries_string g.name
  have hconfig := Configuration.carries hplain.config
  have hvertices := carries_vertices hplain hsize
  have hnodup : ["id", "name", "config", "vertices"].Nodup := by decide
  simp [ofJson?, toJson, structureMembers, Json.record?_object, hnodup, hid.decoded, hname.decoded,
    hconfig.decoded, hvertices.decoded]

theorem whole (g : JobGraph) : Json.Whole (Json.required? ofJson?) g.toJson := by
  have hvertices : Json.Whole (Json.required? (Json.list? Vertex.ofJson?)) g.verticesJson :=
    .list fun v _ => v.whole
  refine .record (fun _ => rfl) rfl (by decide) fun n _ h => ?_
  simp only [structureMembers, List.map_cons, List.map_nil, Option.bind_eq_bind,
    Option.bind_eq_some_iff] at h
  obtain ⟨_, -, _, -, _, hconfig', _, hvertices', -⟩ := h
  have hconfig := g.config.whole n _ hconfig'
  simp [JobId.toJson, structureMembers, hconfig, hvertices n _ hvertices']

end JobGraph

end Dataflow
