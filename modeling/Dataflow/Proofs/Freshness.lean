import Mathlib.Data.List.Nodup
import Mathlib.Data.List.Perm.Basic
import Dataflow.Proofs.FlatKeys

/-! # Fresh keys

    Every setting of a task is written under a key of its own, whatever users
    name their parameters and however deep tasks are fused into each other. So
    no entry is written over another one: the flat form has as many keys as are
    written, and what stands behind the prefix of a fused task is the flat form
    of this task.

    The entries of a task are families of settings, one after another. A family
    has different keys, and a setting says at which stage its family is written.

    Main statements:
    - `SortedMap.perm_ofList`: a map holds all entries that have different keys
    - `Configuration.keysUnder_eq`: the keys behind a prefix
    - `TaskConfig.nodup_entries`: the entries of a task have different keys
    - `TaskConfig.flatten_fresh`: nothing in the flat form is written over, and
      nested settings are found behind their prefix
-/

namespace Dataflow

/-! ## Section 1: Maps of entries with different keys -/

theorem keysDetermine_of_nodup {κ ν : Type} {l : List (κ × ν)} (h : (l.map Prod.fst).Nodup) :
    KeysDetermine l := by
  intro k v w hv hw
  exact congrArg Prod.snd (List.inj_on_of_nodup_map h hv hw rfl)

theorem nodup_of_increasing {κ : Type} [Ord κ] [Std.LawfulEqOrd κ] {l : List κ}
    (h : l.Pairwise fun a b => compare a b = .lt) : l.Nodup := by
  apply h.imp
  rintro a _ hlt rfl
  simp at hlt

namespace SortedMap

variable {κ ν : Type} [Ord κ]

theorem keys_increasing (m : SortedMap κ ν) : m.keys.Pairwise fun a b => compare a b = .lt :=
  List.pairwise_map.mpr m.increasing

variable [Std.LawfulEqOrd κ]

theorem nodup_keys (m : SortedMap κ ν) : m.keys.Nodup := nodup_of_increasing m.keys_increasing

theorem mem_keys {m : SortedMap κ ν} {k : κ} : k ∈ m.keys ↔ ∃ v, m.get? k = some v := by
  simp only [keys, List.mem_map, Prod.exists, get?_eq_some_iff, exists_and_right, exists_eq_right]

variable [Std.TransOrd κ] [DecidableEq κ] {l : List (κ × ν)}

/-- A map holds all entries that have different keys. -/
theorem perm_ofList (h : (l.map Prod.fst).Nodup) : (ofList l).entries.Perm l := by
  rw [List.perm_ext_iff_of_nodup (ofList l).nodup_keys.of_map h.of_map]
  intro e
  rw [← get?_eq_some_iff, get?_ofList_eq_some_iff (keysDetermine_of_nodup h)]

theorem ofList_eq_of_perm (h : (l.map Prod.fst).Nodup) {l' : List (κ × ν)} (hperm : l'.Perm l) :
    ofList l' = ofList l := by
  have h' : (l'.map Prod.fst).Nodup := (hperm.map Prod.fst).nodup_iff.mpr h
  apply ext_get?
  intro k
  apply Option.ext
  intro v
  rw [get?_ofList_eq_some_iff (keysDetermine_of_nodup h'),
    get?_ofList_eq_some_iff (keysDetermine_of_nodup h), hperm.mem_iff]

/-- No entry is written over another one, where all have different keys. -/
theorem get?_ofList_eq_none (h : (l.map Prod.fst).Nodup) {before after : List (κ × ν)} {e : κ × ν}
    (hl : l = before ++ e :: after) : (ofList before).get? e.1 = none := by
  rw [hl, List.map_append, List.map_cons, List.nodup_append] at h
  obtain ⟨hbefore, -, hdisjoint⟩ := h
  rw [Option.eq_none_iff_forall_ne_some]
  intro v hv
  have hmem := (get?_ofList_eq_some_iff (keysDetermine_of_nodup hbefore) e.1 v).mp hv
  exact hdisjoint _ (List.mem_map_of_mem hmem) _ List.mem_cons_self rfl

end SortedMap

/-! ## Section 2: Keys behind a prefix -/

theorem compare_append_left (lead : String) {a b : String} (h : compare a b = .lt) :
    compare (lead ++ a) (lead ++ b) = .lt := by
  have hlt : a < b := compareOfLessAndEq_eq_lt.mp h
  apply compareOfLessAndEq_eq_lt.mpr
  rw [String.lt_iff, String.toList_append, String.toList_append]
  exact List.append_left_lt (String.lt_iff.mp hlt)

/-- Where a configuration holds behind a prefix what another one holds, its keys behind the prefix are
those of the other. -/
theorem Configuration.keysUnder_eq {c : Configuration} (other : Configuration) {lead : String}
    (h : ∀ key, c.get? (lead ++ key) = other.get? key) :
    c.keysUnder lead = other.keys.map (lead ++ ·) := by
  have hmem : ∀ key, key ∈ c.keysUnder lead ↔ key ∈ other.keys.map (lead ++ ·) := by
    intro key
    simp only [keysUnder, List.mem_filter, List.mem_map, List.isPrefixOf_iff_prefix]
    constructor
    · rintro ⟨hkey, rest, hrest⟩
      have hsplit : lead ++ String.ofList rest = key := by
        rw [← String.toList_inj, String.toList_append, String.toList_ofList, hrest]
      rw [← hsplit, SortedMap.mem_keys, h] at hkey
      exact ⟨_, SortedMap.mem_keys.mpr hkey, hsplit⟩
    · rintro ⟨rest, hrest, rfl⟩
      rw [SortedMap.mem_keys, ← h] at hrest
      exact ⟨SortedMap.mem_keys.mpr hrest, by simp⟩
  have hown : (c.keysUnder lead).Pairwise fun a b => compare a b = .lt :=
    c.keys_increasing.filter _
  have hother : (other.keys.map (lead ++ ·)).Pairwise fun a b => compare a b = .lt :=
    other.keys_increasing.map _ fun _ _ => compare_append_left lead
  -- Both are in the order of the keys, so it is enough that they have the same members.
  have hperm := (List.perm_ext_iff_of_nodup (nodup_of_increasing hown)
    (nodup_of_increasing hother)).mpr hmem
  refine hperm.eq_of_pairwise ?_ hown hother
  intro a b _ _ hab hba
  rw [Std.OrientedOrd.eq_swap, hba] at hab
  cases hab

/-- The same where there may be no other one, and nothing is held behind the prefix. -/
theorem Configuration.keysUnder_eq_elim {α : Type} {c : Configuration} {owner : Option α}
    {held : α → Configuration} {lead : String}
    (h : ∀ key, c.get? (lead ++ key) = owner.bind fun a => (held a).get? key) :
    c.keysUnder lead = owner.elim [] fun a => (held a).keys.map (lead ++ ·) := by
  cases owner with
  | none => exact keysUnder_eq .empty h
  | some a => exact keysUnder_eq (held a) h

/-! ## Section 3: Families of entries -/

namespace FlatKey

/-- The stage at which the family of a setting is written. -/
def stage : FlatKey → Nat
  | userClass | parameter _ => 0
  | driver .driver => 1
  | driver .strategy => 2
  | driverComparator _ => 3
  | driver .pairComparator => 4
  | driver (.budget _) => 5
  | sinkParallelism => 6
  | inputCount | input .. => 7
  | outputCount | output .. => 8
  | outputSerializer => 9
  | fusedCount => 10
  | fusedTask .. | fused .. => 11

/-- The position of the slot or the fused task of a setting, if it has one. -/
def position : FlatKey → Nat
  | input position _ | output position _ | fusedTask position _ | fused position _ => position
  | _ => 0

end FlatKey

/-- The entries have different keys, and these are the keys of settings with a property. -/
structure Keyed (P : FlatKey → Prop) (entries : List Entry) : Prop where
  nodup : (entries.map Prod.fst).Nodup
  keys : ∀ key v, (key, v) ∈ entries → ∃ k, key = k.text ∧ P k

namespace Keyed

variable {P Q : FlatKey → Prop} {l l' : List Entry}

theorem nil : Keyed P [] := ⟨List.nodup_nil, fun _ _ h => absurd h List.not_mem_nil⟩

theorem mono (h : Keyed P l) (hPQ : ∀ k, P k → Q k) : Keyed Q l where
  nodup := h.nodup
  keys key v hmem := by
    obtain ⟨k, hkey, hk⟩ := h.keys key v hmem
    exact ⟨k, hkey, hPQ k hk⟩

theorem singleton {k : FlatKey} {v : Setting} : Keyed (· = k) [(k.text, v)] where
  nodup := List.nodup_singleton _
  keys _ _ h := ⟨k, congrArg Prod.fst (List.mem_singleton.mp h), rfl⟩

theorem optional {α : Type} {k : FlatKey} {value : Option α} {setting : α → Setting} :
    Keyed (·.stage = k.stage) (optionalEntry k.text value setting) := by
  cases value with
  | none => exact nil
  | some a => exact singleton.mono fun _ h => congrArg FlatKey.stage h

/-- Entries with different keys stay so when their keys are replaced by those of settings. -/
theorem map {α ν : Type} {entries : List (α × ν)} (hnodup : (entries.map Prod.fst).Nodup)
    {key : α → FlatKey} (hkey : ∀ {a b}, key a = key b → a = b) (hP : ∀ a, P (key a))
    {f : ν → Setting} : Keyed P (entries.map fun e => ((key e.1).text, f e.2)) where
  nodup := by
    have hrenamed := hnodup.map (f := fun a => (key a).text) fun _ _ h =>
      hkey (FlatKey.text_injective h)
    rw [List.map_map] at hrenamed ⊢
    exact hrenamed
  keys k v hmem := by
    obtain ⟨e, -, he⟩ := List.mem_map.mp hmem
    exact ⟨key e.1, (congrArg Prod.fst he).symm, hP e.1⟩

/-- Families of which no setting has both properties can stand one behind the other. -/
theorem append (h : Keyed P l) (h' : Keyed Q l') (hPQ : ∀ k, P k → ¬ Q k) :
    Keyed (fun k => P k ∨ Q k) (l ++ l') where
  nodup := by
    rw [List.map_append, List.nodup_append]
    refine ⟨h.nodup, h'.nodup, ?_⟩
    intro key hkey key' hkey' heq
    obtain ⟨e, he, rfl⟩ := List.mem_map.mp hkey
    obtain ⟨e', he', rfl⟩ := List.mem_map.mp hkey'
    obtain ⟨k, hk, hP⟩ := h.keys _ _ he
    obtain ⟨k', hk', hQ⟩ := h'.keys _ _ he'
    obtain rfl := FlatKey.text_injective (hk.symm.trans (heq.trans hk'))
    exact hPQ k hP hQ
  keys key v hmem := by
    rcases List.mem_append.mp hmem with hmem | hmem
    · obtain ⟨k, hkey, hk⟩ := h.keys key v hmem
      exact ⟨k, hkey, .inl hk⟩
    · obtain ⟨k, hkey, hk⟩ := h'.keys key v hmem
      exact ⟨k, hkey, .inr hk⟩

/-- In front of a family there can be another setting of its stage. -/
theorem cons {k : FlatKey} {v : Setting} (h : Keyed P l)
    (hP : ∀ k', P k' → k'.stage = k.stage ∧ k' ≠ k) : Keyed (·.stage = k.stage) ((k.text, v) :: l) := by
  refine (singleton.append h fun k' hk hk' => (hP k' hk').2 hk).mono ?_
  rintro k' (rfl | hk')
  · rfl
  · exact (hP k' hk').1

/-- The family of a stage stands behind those of the stages before. -/
theorem next {n : Nat} (h : Keyed (·.stage < n) l) (h' : Keyed (·.stage = n) l') :
    Keyed (·.stage < n + 1) (l ++ l') :=
  (h.append h' fun _ => Nat.ne_of_lt).mono fun _ hk => by omega

/-- The families of owners at different positions are one family, if their settings say the
position. -/
theorem flatMap {α : Type} {owners : List α} {place : α → Nat} (howners : (owners.map place).Nodup)
    {position : FlatKey → Nat} {f : α → List Entry}
    (h : ∀ a ∈ owners, Keyed (fun k => P k ∧ position k = place a) (f a)) :
    Keyed (fun k => P k ∧ position k ∈ owners.map place) (owners.flatMap f) := by
  induction owners with
  | nil => exact nil
  | cons a owners ih =>
    obtain ⟨ha, howners⟩ := List.nodup_cons.mp howners
    have ih := ih howners fun a ha => h a (List.mem_cons_of_mem _ ha)
    refine ((h a List.mem_cons_self).append ih ?_).mono ?_
    · rintro k ⟨-, hk⟩ ⟨-, hk'⟩
      exact ha (hk ▸ hk')
    · rintro k (⟨hP, hk⟩ | ⟨hP, hk⟩)
      · exact ⟨hP, hk ▸ List.mem_cons_self⟩
      · exact ⟨hP, List.mem_cons_of_mem _ hk⟩

end Keyed

/-! ## Section 4: Budgets and slots -/

theorem optionalEntry_sublist {α : Type} {key : String} {value : Option α} {setting : α → Setting} :
    ((optionalEntry key value setting).map Prod.fst).Sublist [key] := by
  cases value with
  | none => exact List.nil_sublist _
  | some a => exact List.Sublist.refl _

theorem markEntry_sublist {key : String} {set : Bool} :
    ((markEntry key set).map Prod.fst).Sublist [key] := by
  cases set with
  | false => exact List.nil_sublist _
  | true => exact List.Sublist.refl _

theorem Budget.nodup_entries (b : Budget) (owner : String) :
    ((b.entries owner).map Prod.fst).Nodup := by
  simp [entries]

theorem InputSlot.nodup_entries (slot : InputSlot) (position : Nat) :
    ((slot.entries position).map Prod.fst).Nodup := by
  obtain ⟨owner, howner⟩ : ∃ owner, owner = "in." ++ toString position := ⟨_, rfl⟩
  have hkeys : ((slot.entries position).map Prod.fst).Sublist
      ([owner ++ ".group-size"] ++ [owner ++ ".serializer"] ++ [owner ++ ".local-strategy"] ++
        [owner ++ ".comparator"] ++ [owner ++ ".memory", owner ++ ".max-fan", owner ++ ".spill-threshold"] ++
        [owner ++ ".dammed"] ++ [owner ++ ".replayable"] ++ [owner ++ ".dam-memory"]) := by
    simp only [entries, List.map_append, ← howner]
    refine .append (.append (.append (.append ?_ ?budget) ?_) ?_) optionalEntry_sublist
    case budget =>
      cases slot.budget with
      | none => exact List.nil_sublist _
      | some b => exact List.Sublist.refl _
    · exact (((List.Sublist.refl _).append optionalEntry_sublist).append optionalEntry_sublist).append
        optionalEntry_sublist
    · exact markEntry_sublist
    · exact markEntry_sublist
  apply List.Nodup.sublist hkeys
  simp

theorem OutputSlot.nodup_entries (slot : OutputSlot) (position : Nat) :
    ((slot.entries position).map Prod.fst).Nodup := by
  have hkeys : ((slot.entries position).map Prod.fst).Sublist
      ["out." ++ toString position ++ ".ship-strategy", "out." ++ toString position ++ ".comparator"] :=
    optionalEntry_sublist.cons_cons _
  apply List.Nodup.sublist hkeys
  simp

/-! ## Section 5: The settings of a task -/

theorem UserCode.keyed (u : UserCode) : Keyed (·.stage = 0) u.entries := by
  have hparameters : Keyed (∃ name, · = .parameter name)
      (u.parameters.entries.map fun e => ("stub.param." ++ e.1, e.2)) := by
    simp only [← FlatKey.text_parameter]
    exact .map u.parameters.nodup_keys (f := id) FlatKey.parameter.inj fun name => ⟨name, rfl⟩
  apply hparameters.cons (k := .userClass)
  rintro _ ⟨name, rfl⟩
  exact ⟨rfl, nofun⟩

theorem keyed_comparators (comparators : SortedMap Nat Comparator) : Keyed (·.stage = 3)
    (comparators.entries.map fun e => ("driver.comparator." ++ toString e.1, e.2.setting)) := by
  simp only [← FlatKey.text_driverComparator]
  exact .map comparators.nodup_keys FlatKey.driverComparator.inj fun _ => rfl

theorem keyed_driverBudget (b : Budget) : Keyed (·.stage = 5) (b.entries "driver") where
  nodup := b.nodup_entries "driver"
  keys key v h := by
    obtain ⟨field, hkey, -⟩ := Budget.mem_entries.mp h
    exact ⟨.driver (.budget field), hkey.trans (FlatKey.text_driverBudget field).symm, rfl⟩

theorem keyed_inputs (inputs : SortedMap Nat InputSlot) : Keyed (·.stage = 7)
    (("in.num", .ofNat inputs.size) :: inputs.entries.flatMap fun e => e.2.entries e.1) := by
  have hslot : ∀ e ∈ inputs.entries,
      Keyed (fun k => (∃ position field, k = .input position field) ∧ k.position = e.1)
        (e.2.entries e.1) := by
    intro e _
    refine ⟨e.2.nodup_entries e.1, fun key v h => ?_⟩
    obtain ⟨field, hkey, -⟩ := InputSlot.mem_entries.mp h
    exact ⟨_, hkey, ⟨e.1, field, rfl⟩, rfl⟩
  apply (Keyed.flatMap inputs.nodup_keys hslot).cons (k := .inputCount)
  rintro _ ⟨⟨position, field, rfl⟩, -⟩
  exact ⟨rfl, nofun⟩

theorem nodup_positions {α : Type} (l : List α) : (l.zipIdx.map Prod.snd).Nodup := by
  rw [List.zipIdx_map_snd]
  exact List.nodup_range'

theorem keyed_outputs (outputs : List OutputSlot) : Keyed (·.stage = 8)
    (("out.num", .ofNat outputs.length) :: outputs.zipIdx.flatMap fun e => e.1.entries e.2) := by
  have hslot : ∀ e ∈ outputs.zipIdx,
      Keyed (fun k => (∃ position field, k = .output position field) ∧ k.position = e.2)
        (e.1.entries e.2) := by
    intro e _
    refine ⟨e.1.nodup_entries e.2, fun key v h => ?_⟩
    obtain ⟨field, hkey, -⟩ := OutputSlot.mem_entries.mp h
    exact ⟨_, hkey, ⟨e.2, field, rfl⟩, rfl⟩
  apply (Keyed.flatMap (nodup_positions outputs) hslot).cons (k := .outputCount)
  rintro _ ⟨⟨position, field, rfl⟩, -⟩
  exact ⟨rfl, nofun⟩

/-- The settings of a task by itself are written at ten stages. -/
theorem TaskSettings.keyed (t : TaskSettings) : Keyed (·.stage < 10) t.entries := by
  -- From the last stage to the first.
  refine .next ?_ (.optional (k := .outputSerializer))
  refine .next ?_ (keyed_outputs t.outputs)
  refine .next ?_ (keyed_inputs t.inputs)
  refine .next ?_ (.optional (k := .sinkParallelism))
  refine .next ?_ ?budget
  case budget =>
    cases t.driverBudget with
    | none => exact .nil
    | some b => exact keyed_driverBudget b
  refine .next ?_ (.optional (k := .driver .pairComparator))
  refine .next ?_ (keyed_comparators t.driverComparators)
  refine .next ?_ (.optional (k := .driver .strategy))
  refine .next ?_ (.optional (k := .driver .driver))
  cases t.userCode with
  | none => exact .nil
  | some u => exact u.keyed.mono fun k hk => by omega

/-! ## Section 6: Fused tasks -/

/-- The entries of a fused task at a position: its driver, its name and those of its own task behind a
prefix. -/
def FusedTask.entriesAt (task : FusedTask) (position : Nat) (own : List Entry) : List Entry :=
  [(fusedOwner position ++ ".class", .string task.driver),
    (fusedOwner position ++ ".name", .string task.name)]
    ++ own.map fun e => (fusedOwner position ++ ".config." ++ e.1, e.2)

theorem FusedTask.entriesFrom_eq (tasks : List FusedTask) (start : Nat) : entriesFrom start tasks =
    (tasks.zipIdx start).flatMap fun e => e.1.entriesAt e.2 e.1.config.entries := by
  induction tasks generalizing start with
  | nil => simp [entriesFrom]
  | cons task rest ih =>
    obtain ⟨driver, config, name⟩ := task
    rw [List.zipIdx_cons, List.flatMap_cons, ← ih, entriesFrom]
    rfl

theorem FusedTask.keyed (task : FusedTask) (position : Nat) {own : List Entry}
    (hown : (own.map Prod.fst).Nodup) :
    Keyed (fun k => k.stage = 11 ∧ k.position = position) (task.entriesAt position own) := by
  have hfields : Keyed (∃ field, · = .fusedTask position field)
      [(fusedOwner position ++ ".class", .string task.driver),
        (fusedOwner position ++ ".name", .string task.name)] := by
    refine ⟨by simp, fun key v h => ?_⟩
    simp only [List.mem_cons, Prod.mk.injEq, List.not_mem_nil, or_false] at h
    rcases h with ⟨rfl, -⟩ | ⟨rfl, -⟩
    · exact ⟨_, (FlatKey.text_fusedTask position .driver).symm, _, rfl⟩
    · exact ⟨_, (FlatKey.text_fusedTask position .name).symm, _, rfl⟩
  have hnested : Keyed (∃ key, · = .fused position key)
      (own.map fun e => (fusedOwner position ++ ".config." ++ e.1, e.2)) := by
    simp only [← FlatKey.text_fused]
    exact .map hown (f := id) (fun h => (FlatKey.fused.inj h).2) fun key => ⟨key, rfl⟩
  refine (hfields.append hnested ?_).mono ?_
  · rintro _ ⟨field, rfl⟩ ⟨key, h⟩
    cases h
  · rintro _ (⟨field, rfl⟩ | ⟨key, rfl⟩) <;> exact ⟨rfl, rfl⟩

namespace TaskConfig

theorem entries_eq (t : TaskConfig) : t.entries = t.toTaskSettings.entries ++
    fusedCountEntry t.fused.length ++
      t.fused.zipIdx.flatMap fun e => e.1.entriesAt e.2 e.1.config.entries := by
  obtain ⟨settings, fused⟩ := t
  rw [entries, FusedTask.entriesFrom_eq]

/-- The entries of a task have different keys. -/
theorem nodup_entries (t : TaskConfig) : (t.entries.map Prod.fst).Nodup := by
  induction t using TaskConfig.induction with
  | step t ih =>
    have hcount : Keyed (·.stage = 10) (fusedCountEntry t.fused.length) := by
      unfold fusedCountEntry
      split
      · exact .nil
      · exact (Keyed.singleton (k := .fusedCount)).mono fun _ h => congrArg FlatKey.stage h
    have htask : ∀ e ∈ t.fused.zipIdx, Keyed (fun k => k.stage = 11 ∧ k.position = e.2)
        (e.1.entriesAt e.2 e.1.config.entries) := fun e he =>
      e.1.keyed e.2 (ih e.1 (List.fst_mem_of_mem_zipIdx he))
    have hfused := (Keyed.flatMap (nodup_positions t.fused) htask).mono fun _ h => h.1
    rw [t.entries_eq]
    exact ((t.toTaskSettings.keyed.next hcount).next hfused).nodup

/-! ## Section 7: Writing the flat form -/

/-- What is written into the flat form, in order: the settings of the task by itself, and for every
fused task its driver, its name and what its own flat form holds behind a prefix. -/
def writes (t : TaskConfig) : List Entry :=
  t.toTaskSettings.entries ++ fusedCountEntry t.fused.length ++
    t.fused.zipIdx.flatMap fun e => e.1.entriesAt e.2 e.1.config.flatten.entries

/-- What is written is all entries, with those of fused tasks in the order of their keys. -/
theorem writes_perm (t : TaskConfig) : t.writes.Perm t.entries := by
  rw [t.entries_eq]
  refine .append_left _ (.flatMap_left _ fun e _ => .append_left _ (.map _ ?_))
  exact SortedMap.perm_ofList e.1.config.nodup_entries

/-- Nothing in the flat form is written over, and nested settings are found behind their prefix. What
is written are the settings of a task with the flat forms of the tasks fused into it, every entry under
a key that is not there yet, so that the flat form has one key for every entry, those of all fused tasks
included. Behind the prefix of a fused task stands its flat form and nothing else, nothing behind that of
a task that is not there, and behind the prefix of parameters stand those of the user code, if there is
any. -/
theorem flatten_fresh (t : TaskConfig) :
    (∀ position key, t.flatten.get? (fusedOwner position ++ ".config." ++ key) =
      t.fused[position]?.bind fun task => task.config.flatten.get? key) ∧
    (∀ position, t.flatten.keysUnder (fusedOwner position ++ ".config.") =
      t.fused[position]?.elim [] fun task =>
        task.config.flatten.keys.map (fusedOwner position ++ ".config." ++ ·)) ∧
    (∀ name, t.flatten.get? ("stub.param." ++ name) =
      t.userCode.bind fun u => u.parameters.get? name) ∧
    t.flatten.keysUnder "stub.param." =
      (t.userCode.elim [] fun u => u.parameters.keys.map ("stub.param." ++ ·)) ∧
    t.flatten = SortedMap.ofList t.writes ∧
    (∀ before e after, t.writes = before ++ e :: after →
      (SortedMap.ofList before).get? e.1 = none) ∧
    t.flatten.size = t.writes.length ∧ t.writes.length = t.entries.length := by
  have hfused : ∀ position key, t.flatten.get? (fusedOwner position ++ ".config." ++ key) =
      t.fused[position]?.bind fun task => task.config.flatten.get? key := by
    intro position key
    rw [← FlatKey.text_fused]
    exact t.get?_flatten (.fused position key)
  have hparameter : ∀ name, t.flatten.get? ("stub.param." ++ name) =
      t.userCode.bind fun u => u.parameters.get? name := by
    intro name
    rw [← FlatKey.text_parameter]
    exact t.get?_flatten (.parameter name)
  have hnodup : (t.writes.map Prod.fst).Nodup :=
    (t.writes_perm.map Prod.fst).nodup_iff.mpr t.nodup_entries
  have hwritten : t.flatten = SortedMap.ofList t.writes :=
    (SortedMap.ofList_eq_of_perm t.nodup_entries t.writes_perm).symm
  refine ⟨hfused, fun position => Configuration.keysUnder_eq_elim (hfused position), hparameter,
    Configuration.keysUnder_eq_elim hparameter, hwritten,
    fun before e after => SortedMap.get?_ofList_eq_none hnodup, ?_, t.writes_perm.length_eq⟩
  rw [hwritten]
  exact (SortedMap.perm_ofList hnodup).length_eq

end TaskConfig

end Dataflow
