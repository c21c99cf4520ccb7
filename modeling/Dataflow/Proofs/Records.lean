import Mathlib.Data.List.Nodup
import Dataflow.Handle
import Dataflow.Proofs.Descriptors

/-! # Records read from their encodings

    Plans and job graphs are records of records. A field holds what it was
    written for if its value is exact and the field's decoder gives this back;
    a record of such fields with different names is such a value again, and so
    are lists, maps and optional values. Words and names of values always are,
    positions as far as 64 bits go, and settings unless they are floats.

    Main statements:
    - `record?_object`: a record gives the values of its members
    - `Configuration.carries`: settings without floats are read back
-/

namespace Dataflow

namespace Json

/-! ## Section 1: Fields -/

/-- The text of a value holds the value, but for what is nested too deep. -/
theorem Exact.scan?_render {j : Json} (h : j.Exact) :
    scan? j.render.toList = some (j.limited nestingLimit) := by
  rw [render, String.toList_ofList, scan?_text h]

/-- A field with the value `j` holds `a`, and the text of `j` holds `j`. -/
structure Carries {α : Type} (decode : Option Json → Option α) (j : Json) (a : α) : Prop where
  /-- The value can be read from its text. -/
  exact : j.Exact
  /-- The decoder of the field gives what it holds. -/
  decoded : decode (some j) = some a

/-- A value holds one thing at most. -/
theorem Carries.inj {α : Type} {decode : Option Json → Option α} {j : Json} {a b : α}
    (ha : Carries decode j a) (hb : Carries decode j b) : a = b :=
  Option.some.inj (ha.decoded.symm.trans hb.decoded)

section
variable {α : Type} {decode : Json → Option α} {encode : α → Json}

/-- An optional value is read back if `null` is no value. -/
theorem Carries.optional {o : Option α} (hnull : decode .null = none)
    (h : ∀ a ∈ o, Carries (required? decode) (encode a) a) :
    Carries (optional? decode) (ofOption encode o) o := by
  cases o with
  | none => exact ⟨.null, rfl⟩
  | some a =>
    obtain ⟨hexact, hdecoded⟩ := h a rfl
    have hdecode : decode (encode a) = some a := hdecoded
    refine ⟨hexact, ?_⟩
    rw [ofOption, optional?]
    · rw [hdecode, Option.map_some]
    · intro heq
      rw [heq, hnull] at hdecode
      contradiction

/-- An absent value is read back whatever others are. -/
theorem Carries.absent {o : Option α} (h : o = none) :
    Carries (optional? decode) (ofOption encode o) o := by
  subst h
  exact ⟨.null, rfl⟩

/-- A list is read back if its items are. -/
theorem Carries.list {l : List α} (h : ∀ a ∈ l, Carries (required? decode) (encode a) a) :
    Carries (required? (list? decode)) (ofList encode l) l where
  exact := by
    apply Exact.array
    intro item hitem
    obtain ⟨a, ha, rfl⟩ := List.mem_map.mp hitem
    exact (h a ha).exact
  decoded := mapM_map_eq_some fun a ha => (h a ha).decoded

end

/-- A map is read back if its keys and its values are. -/
theorem Carries.map {κ ν : Type} [Ord κ] [Std.TransOrd κ] [Std.LawfulEqOrd κ] [DecidableEq κ]
    {readKey : String → Option κ} {readValue : Json → Option ν} {key : κ → String} {value : ν → Json}
    {m : SortedMap κ ν} (hkey : ∀ e ∈ m.entries, readKey (key e.1) = some e.1)
    (hvalue : ∀ e ∈ m.entries, Carries (required? readValue) (value e.2) e.2) :
    Carries (required? (map? readKey readValue)) (ofMap key value m) m where
  exact := by
    apply Exact.object
    intro member hmember
    obtain ⟨e, he, rfl⟩ := List.mem_map.mp hmember
    exact (hvalue e he).exact
  decoded := map?_ofMap hkey fun e he => (hvalue e he).decoded

/-- A field with the value `j` is decoded only as a whole: where a reader leaves out what is nested
too deep, nothing is decoded unless all is left. -/
def Whole {α : Type} (decode : Option Json → Option α) (j : Json) : Prop :=
  ∀ n a, decode (some (j.limited n)) = some a → j.depth ≤ n

section
variable {α : Type} {decode : Json → Option α} {encode : α → Json}

/-- Of a value without brackets nothing is left out. -/
theorem Whole.of_depth_eq_zero {field : Option Json → Option α} {j : Json} (h : j.depth = 0) :
    Whole field j := fun n _ _ => h ▸ Nat.zero_le n

theorem depth_of_limited_eq_null {j : Json} {n : Nat} (h : j.limited n = .null) : j.depth = 0 := by
  cases j with
  | array items => cases n <;> simp at h
  | object members => cases n <;> simp at h
  | _ => rfl

/-- An optional value is decoded as a whole if it is whenever it is there. -/
theorem Whole.optional {o : Option α} (h : ∀ a ∈ o, Whole (required? decode) (encode a)) :
    Whole (optional? decode) (ofOption encode o) := by
  cases o with
  | none => exact .of_depth_eq_zero rfl
  | some a =>
    intro n b hb
    rw [ofOption] at hb ⊢
    unfold optional? at hb
    split at hb
    · contradiction
    · rename_i hnull
      exact depth_of_limited_eq_null (Option.some.inj hnull) ▸ Nat.zero_le n
    · rename_i j _ hj
      obtain ⟨b', hb', -⟩ := Option.map_eq_some_iff.mp hb
      exact h a rfl n b' (Option.some.inj hj ▸ hb')

theorem exists_of_mapM_eq_some {β : Type} {f : α → Option β} {l : List α} {bs : List β}
    (h : l.mapM f = some bs) : ∀ a ∈ l, ∃ b, f a = some b := by
  induction l generalizing bs with
  | nil => simp
  | cons a l ih =>
    simp only [List.mapM_cons, Option.bind_eq_bind, Option.bind_eq_some_iff] at h
    obtain ⟨b, hb, bs', hbs, -⟩ := h
    exact List.forall_mem_cons.mpr ⟨⟨b, hb⟩, ih hbs⟩

/-- A list is decoded as a whole if its items are. -/
theorem Whole.list {l : List α} (h : ∀ a ∈ l, Whole (required? decode) (encode a)) :
    Whole (required? (list? decode)) (ofList encode l) := by
  intro n b hb
  cases n with
  | zero => simp [ofList, required?, list?] at hb
  | succ n =>
    rw [ofList, limited_array_succ] at hb
    have hitems := exists_of_mapM_eq_some hb
    rw [ofList, depth_array_le]
    intro item hitem
    obtain ⟨a, ha, rfl⟩ := List.mem_map.mp hitem
    obtain ⟨b, hb⟩ := hitems _ (List.mem_map_of_mem hitem)
    exact h a ha n b hb

end

/-- A map is decoded as a whole if its values are. -/
theorem Whole.map {κ ν : Type} [Ord κ] [Std.TransOrd κ] {readKey : String → Option κ}
    {readValue : Json → Option ν} {key : κ → String} {value : ν → Json} {m : SortedMap κ ν}
    (h : ∀ e ∈ m.entries, Whole (required? readValue) (value e.2)) :
    Whole (required? (map? readKey readValue)) (ofMap key value m) := by
  intro n b hb
  cases n with
  | zero => simp [ofMap, required?, map?] at hb
  | succ n =>
    rw [ofMap, limited_object_succ, required?, Option.bind_some, map?] at hb
    obtain ⟨entries, hentries, -⟩ := Option.bind_eq_some_iff.mp hb
    rw [ofMap, depth_object_le]
    intro member hmember
    obtain ⟨e, he, rfl⟩ := List.mem_map.mp hmember
    obtain ⟨entry, hentry⟩ := exists_of_mapM_eq_some hentries _ (List.mem_map_of_mem hmember)
    obtain ⟨_, -, hentry⟩ := Option.bind_eq_some_iff.mp hentry
    obtain ⟨v, hv, -⟩ := Option.bind_eq_some_iff.mp hentry
    exact h e he n v hv

/-! ## Section 2: Records -/

/-- If no name stands twice, a member is found under its name. -/
theorem member?_eq {members : List (String × Json)} (h : (members.map Prod.fst).Nodup)
    {m : String × Json} (hm : m ∈ members) : member? members m.1 = some m.2 := by
  unfold member?
  cases hfind : members.reverse.find? fun member => member.1 = m.1 with
  | none =>
    have hnot := List.find?_eq_none.mp hfind m (List.mem_reverse.mpr hm)
    simp at hnot
  | some found =>
    have hname : found.1 = m.1 := by simpa using List.find?_some hfind
    have hmem := List.mem_reverse.mp (List.mem_of_find?_eq_some hfind)
    rw [Option.map_some, List.inj_on_of_nodup_map h hmem hm hname]

/-- A record gives the values of its members, if no name stands twice. -/
theorem record?_object {names : List String} {members : List (String × Json)}
    (hnames : members.map Prod.fst = names) (hnodup : names.Nodup) (defaulted : Nat) :
    record? names defaulted (.object members) = some (members.map fun m => some m.2) := by
  subst hnames
  rw [record?, List.map_map]
  exact congrArg some (List.map_congr_left fun m hm => member?_eq hnodup hm)

/-- The content of a variant with names gives the values of its members, wherever it stands. -/
theorem content?_object {names : List String} {members : List (String × Json)} (origin : Origin)
    (hnames : members.map Prod.fst = names) (hnodup : names.Nodup) :
    content? origin names (.object members) = some (members.map fun m => some m.2) := by
  have hrecord := record?_object hnames hnodup 0
  cases origin <;> exact hrecord

/-- A record is decoded as a whole if its fields are: `parse` gets what is left of each. -/
theorem Whole.record {α : Type} {names : List String} {defaulted : Nat}
    {members : List (String × Json)} {decode : Json → Option α}
    {parse : List (Option Json) → Option α}
    (hdecode : ∀ j, decode j = (record? names defaulted j).bind parse)
    (hnames : members.map Prod.fst = names) (hnodup : names.Nodup)
    (h : ∀ n a, parse (members.map fun m => some (m.2.limited n)) = some a →
      ∀ m ∈ members, m.2.depth ≤ n) : Whole (required? decode) (.object members) := by
  intro n a ha
  change decode _ = some a at ha
  cases n with
  | zero => simp [hdecode, record?] at ha
  | succ n =>
    rw [hdecode, limited_object_succ, record?_object (by rw [List.map_map]; exact hnames) hnodup,
      Option.bind_some, List.map_map] at ha
    exact depth_object_le.mpr (h n a ha)

/-! ## Section 3: Words -/

theorem carries_string (s : String) : Carries (required? string?) (.string s) s := ⟨.string s, rfl⟩

theorem carries_bool (b : Bool) : Carries (required? bool?) (.bool b) b := ⟨.bool b, rfl⟩

theorem carries_below {bound n : Nat} (hbound : bound ≤ UInt64.size) (h : n < bound) :
    Carries (required? (below? bound)) (.ofNat n) n where
  exact := by
    have hsize : UInt64.size = 2 ^ 64 := rfl
    exact .integer (by omega) (by omega)
  decoded := if_pos h

theorem carries_uint32 (n : UInt32) : Carries (required? uint32?) (.ofNat n.toNat) n where
  exact := (carries_below (by decide) n.toNat_lt).exact
  decoded := by
    have hbelow : below? UInt32.size (.ofNat n.toNat) = some n.toNat := if_pos n.toNat_lt
    show (below? UInt32.size (.ofNat n.toNat)).map UInt32.ofNat = some n
    rw [hbelow, Option.map_some, UInt32.ofNat_toNat]

theorem carries_uint64 (n : UInt64) : Carries (required? uint64?) (.ofNat n.toNat) n where
  exact := (carries_below (Nat.le_refl _) n.toNat_lt).exact
  decoded := by
    have hbelow : below? UInt64.size (.ofNat n.toNat) = some n.toNat := if_pos n.toNat_lt
    show (below? UInt64.size (.ofNat n.toNat)).map UInt64.ofNat = some n
    rw [hbelow, Option.map_some, UInt64.ofNat_toNat]

end Json

/-- A position is read back as far as 64 bits go. -/
theorem Handle.carries {arena : Arena} {h : Handle arena} (hlt : h.index < UInt64.size) :
    Json.Carries (Json.required? Handle.ofJson?) h.toJson h where
  exact := (Json.carries_below (Nat.le_refl _) hlt).exact
  decoded := congrArg (Option.map Handle.mk) (Json.carries_below (Nat.le_refl _) hlt).decoded

theorem Handle.carries_list {arena : Arena} {l : List (Handle arena)}
    (h : ∀ x ∈ l, x.index < UInt64.size) :
    Json.Carries (Json.required? (Json.list? Handle.ofJson?)) (.ofList Handle.toJson l) l :=
  .list fun x hx => Handle.carries (h x hx)

theorem ShipStrategy.carries (s : ShipStrategy) :
    Json.Carries (Json.required? ShipStrategy.ofJson?) s.toJson s := ⟨.string _, s.ofJson?_toJson⟩

theorem LocalStrategy.carries (s : LocalStrategy) :
    Json.Carries (Json.required? LocalStrategy.ofJson?) s.toJson s := ⟨.string _, s.ofJson?_toJson⟩

theorem TempMode.carries (m : TempMode) :
    Json.Carries (Json.required? TempMode.ofJson?) m.toJson m := ⟨.string _, m.ofJson?_toJson⟩

theorem DriverStrategy.carries (d : DriverStrategy) :
    Json.Carries (Json.required? DriverStrategy.ofJson?) d.toJson d := ⟨.string _, d.ofJson?_toJson⟩

theorem Descriptor.carries {role : Role} (d : Descriptor role) :
    Json.Carries (Json.required? Descriptor.ofJson?) d.toJson d := ⟨d.exact_toJson, d.ofJson?_toJson⟩

/-- A descriptor is decoded as a whole, also where its parameters are left out. -/
theorem Descriptor.whole {role : Role} (d : Descriptor role) :
    Json.Whole (Json.required? (Descriptor.ofJson? : Json → Option (Descriptor role))) d.toJson := by
  have hparams : Json.Whole (Json.required? (Json.map? some Json.string?))
      (.ofMap id .string d.params) := .map fun _ _ => .of_depth_eq_zero rfl
  unfold toJson
  split
  · intro n _ hb
    cases n with
    | zero => simp [Json.required?, ofJson?, Json.record?] at hb
    | succ n => simp
  · refine .record (fun _ => rfl) rfl (by decide) fun n _ h => ?_
    obtain ⟨_, -, h⟩ := Option.bind_eq_some_iff.mp h
    obtain ⟨params, hb, -⟩ := Option.bind_eq_some_iff.mp h
    simpa using hparams n params hb

theorem Descriptor.depth_toJson_le {role : Role} (d : Descriptor role) : d.toJson.depth ≤ 2 := by
  unfold toJson
  split <;> simp

theorem Descriptor.carries_optional {role : Role} (d : Option (Descriptor role)) :
    Json.Carries (Json.optional? Descriptor.ofJson?) (.ofOption Descriptor.toJson d) d :=
  .optional rfl fun d _ => d.carries

theorem Descriptor.whole_optional {role : Role} (d : Option (Descriptor role)) :
    Json.Whole (Json.optional? (Descriptor.ofJson? : Json → Option (Descriptor role)))
      (.ofOption Descriptor.toJson d) :=
  .optional fun d _ => d.whole

/-! ## Section 4: Settings -/

/-- Whether a setting is a float. -/
def Setting.isFloat : Setting → Bool
  | .float _ => true
  | .bool _ | .integer _ | .string _ => false

/-- No setting is a float. -/
def Configuration.Floatless (c : Configuration) : Prop := ∀ e ∈ c.entries, e.2.isFloat = false

instance (c : Configuration) : Decidable c.Floatless :=
  inferInstanceAs (Decidable (∀ e ∈ c.entries, e.2.isFloat = false))

theorem int64OfInt?_toInt (i : Int64) : int64OfInt? i.toInt = some i := by
  rw [int64OfInt?, if_pos ⟨i.minValue_le_toInt, i.toInt_le⟩, Int64.ofInt_toInt]

theorem Setting.carries {s : Setting} (h : s.isFloat = false) :
    Json.Carries (Json.required? Setting.ofJson?) s.toJson s := by
  cases s with
  | bool b => exact ⟨.bool b, rfl⟩
  | integer i =>
    refine ⟨.integer i.le_toInt (by have := i.toInt_lt; omega), ?_⟩
    exact congrArg (fun o => some (o.elim (Setting.float (.ofInt i.toInt)) .integer))
      (int64OfInt?_toInt i)
  | float x => simp [isFloat] at h
  | string s => exact ⟨.string s, rfl⟩

/-- Settings without floats are read back. -/
theorem Configuration.carries {c : Configuration} (h : c.Floatless) :
    Json.Carries (Json.required? Configuration.ofJson?) c.toJson c :=
  .map (fun _ _ => rfl) fun e he => Setting.carries (h e he)

/-- A setting has no brackets. -/
@[simp] theorem Setting.depth_toJson (s : Setting) : s.toJson.depth = 0 := by
  cases s <;> simp [toJson]

theorem Configuration.depth_toJson_le (c : Configuration) : c.toJson.depth ≤ 1 := by
  simp [toJson]

theorem UserCode.depth_toJson_le (u : UserCode) : u.toJson.depth ≤ 2 := by
  simp [toJson, Configuration.depth_toJson_le]

theorem Configuration.whole (c : Configuration) :
    Json.Whole (Json.required? Configuration.ofJson?) c.toJson :=
  .map fun e _ => .of_depth_eq_zero e.2.depth_toJson

theorem UserCode.whole (u : UserCode) : Json.Whole (Json.required? UserCode.ofJson?) u.toJson := by
  refine .record (fun _ => rfl) rfl (by decide) fun n _ h => ?_
  obtain ⟨_, -, h⟩ := Option.bind_eq_some_iff.mp h
  obtain ⟨parameters, hparameters, -⟩ := Option.bind_eq_some_iff.mp h
  simpa using u.parameters.whole n parameters hparameters

theorem UserCode.carries {u : UserCode} (h : u.parameters.Floatless) :
    Json.Carries (Json.required? UserCode.ofJson?) u.toJson u := by
  have hname := Json.carries_string u.className
  have hparameters := Configuration.carries h
  have hnodup : ["class", "parameters"].Nodup := by decide
  refine ⟨.object (by simp [hname.exact, hparameters.exact]), ?_⟩
  show ofJson? u.toJson = some u
  simp [ofJson?, toJson, Json.record?_object, hnodup, hname.decoded, hparameters.decoded]

end Dataflow
