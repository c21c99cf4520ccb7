import Dataflow.Json.Decode
import Dataflow.Json.Reader

/-! # Brackets in values

    How deep brackets nest in a value, and what a reader leaves of it that may
    open so many: everything, if they nest no deeper, and else a value with a
    part that holds none.

    Main statements:
    - `limited_of_depth_le`: a value stays if its brackets nest no deeper
    - `isReadable_limited`: only then does it hold a value in all its parts
-/

namespace Dataflow

namespace Json

/-! ## Section 1: Depth -/

mutual

/-- How deep brackets nest in a value. -/
def depth : Json → Nat
  | .array items => itemsDepth items + 1
  | .object members => membersDepth members + 1
  | _ => 0

/-- How deep brackets nest in items. -/
def itemsDepth : List Json → Nat
  | [] => 0
  | item :: rest => max item.depth (itemsDepth rest)

/-- How deep brackets nest in the values of members. -/
def membersDepth : List (String × Json) → Nat
  | [] => 0
  | (_, value) :: rest => max value.depth (membersDepth rest)

end

theorem itemsDepth_le {items : List Json} {n : Nat} :
    itemsDepth items ≤ n ↔ ∀ item ∈ items, item.depth ≤ n := by
  induction items with
  | nil => simp [itemsDepth]
  | cons item items ih => rw [itemsDepth, Nat.max_le, ih, List.forall_mem_cons]

theorem membersDepth_le {members : List (String × Json)} {n : Nat} :
    membersDepth members ≤ n ↔ ∀ m ∈ members, m.2.depth ≤ n := by
  induction members with
  | nil => simp [membersDepth]
  | cons m members ih => rw [membersDepth, Nat.max_le, ih, List.forall_mem_cons]

@[simp] theorem depth_null : Json.null.depth = 0 := rfl

@[simp] theorem depth_bool (b : Bool) : (Json.bool b).depth = 0 := rfl

@[simp] theorem depth_integer (i : Int) : (Json.integer i).depth = 0 := rfl

@[simp] theorem depth_ofNat (n : Nat) : (ofNat n).depth = 0 := rfl

@[simp] theorem depth_ofSingle (x : Binary32) : (ofSingle x).depth = 0 := by
  unfold ofSingle
  split <;> rfl

@[simp] theorem depth_ofDouble (x : Binary64) : (ofDouble x).depth = 0 := by
  unfold ofDouble
  split <;> rfl

@[simp] theorem depth_string (s : String) : (Json.string s).depth = 0 := rfl

@[simp] theorem depth_array_le {items : List Json} {n : Nat} :
    (Json.array items).depth ≤ n + 1 ↔ ∀ item ∈ items, item.depth ≤ n := by
  rw [depth, Nat.add_le_add_iff_right, itemsDepth_le]

@[simp] theorem depth_object_le {members : List (String × Json)} {n : Nat} :
    (Json.object members).depth ≤ n + 1 ↔ ∀ m ∈ members, m.2.depth ≤ n := by
  rw [depth, Nat.add_le_add_iff_right, membersDepth_le]

@[simp] theorem depth_ofOption_le {α : Type} {encode : α → Json} {o : Option α} {n : Nat} :
    (ofOption encode o).depth ≤ n ↔ ∀ a ∈ o, (encode a).depth ≤ n := by
  cases o <;> simp [ofOption]

@[simp] theorem depth_ofList_le {α : Type} {encode : α → Json} {l : List α} {n : Nat} :
    (ofList encode l).depth ≤ n + 1 ↔ ∀ a ∈ l, (encode a).depth ≤ n := by
  simp [ofList]

@[simp] theorem depth_ofMap_le {κ ν : Type} [Ord κ] {key : κ → String} {value : ν → Json}
    {m : SortedMap κ ν} {n : Nat} :
    (ofMap key value m).depth ≤ n + 1 ↔ ∀ e ∈ m.entries, (value e.2).depth ≤ n := by
  rw [ofMap, depth_object_le, List.forall_mem_map]

/-! ## Section 2: What a reader leaves -/

mutual

/-- What is left of a value where `n` brackets may be opened. -/
def limited (n : Nat) : Json → Json
  | .array items => bracketed n (.array (limitedItems (n - 1) items))
  | .object members => bracketed n (.object (limitedMembers (n - 1) members))
  | j => j

/-- What is left of items. -/
def limitedItems (n : Nat) : List Json → List Json
  | [] => []
  | item :: rest => item.limited n :: limitedItems n rest

/-- What is left of members. -/
def limitedMembers (n : Nat) : List (String × Json) → List (String × Json)
  | [] => []
  | (key, value) :: rest => (key, value.limited n) :: limitedMembers n rest

end

theorem limitedItems_eq (n : Nat) (items : List Json) :
    limitedItems n items = items.map (limited n) := by
  induction items with
  | nil => rfl
  | cons item items ih => rw [limitedItems, ih, List.map_cons]

theorem limitedMembers_eq (n : Nat) (members : List (String × Json)) :
    limitedMembers n members = members.map fun m => (m.1, m.2.limited n) := by
  induction members with
  | nil => rfl
  | cons m members ih => rw [limitedMembers, ih, List.map_cons]

@[simp] theorem limited_array_succ (n : Nat) (items : List Json) :
    (Json.array items).limited (n + 1) = .array (items.map (limited n)) := by
  rw [limited, limitedItems_eq]
  rfl

@[simp] theorem limited_object_succ (n : Nat) (members : List (String × Json)) :
    (Json.object members).limited (n + 1) =
      .object (members.map fun m => (m.1, m.2.limited n)) := by
  rw [limited, limitedMembers_eq]
  rfl

@[simp] theorem limited_array_zero (items : List Json) :
    (Json.array items).limited 0 = .unreadable := by
  rw [limited]
  rfl

@[simp] theorem limited_object_zero (members : List (String × Json)) :
    (Json.object members).limited 0 = .unreadable := by
  rw [limited]
  rfl

mutual

/-- A value stays as it is if its brackets nest no deeper than may be opened. -/
theorem limited_of_depth_le {n : Nat} : ∀ {j : Json}, j.depth ≤ n → j.limited n = j
  | .null, _ | .bool _, _ | .integer _, _ | .single _, _ | .double _, _ | .string _, _
  | .unreadable, _ => rfl
  | .array items, h => by
    rw [depth] at h
    obtain ⟨n, rfl⟩ := Nat.exists_eq_add_of_le' (Nat.le_of_add_left_le h)
    rw [limited_array_succ, ← limitedItems_eq,
      limitedItems_of_depth_le (Nat.le_of_succ_le_succ h)]
  | .object members, h => by
    rw [depth] at h
    obtain ⟨n, rfl⟩ := Nat.exists_eq_add_of_le' (Nat.le_of_add_left_le h)
    rw [limited_object_succ, ← limitedMembers_eq,
      limitedMembers_of_depth_le (Nat.le_of_succ_le_succ h)]

theorem limitedItems_of_depth_le {n : Nat} :
    ∀ {items : List Json}, itemsDepth items ≤ n → limitedItems n items = items
  | [], _ => rfl
  | item :: rest, h => by
    rw [itemsDepth, Nat.max_le] at h
    rw [limitedItems, limited_of_depth_le h.1, limitedItems_of_depth_le h.2]

theorem limitedMembers_of_depth_le {n : Nat} : ∀ {members : List (String × Json)},
    membersDepth members ≤ n → limitedMembers n members = members
  | [], _ => rfl
  | (_, value) :: rest, h => by
    rw [membersDepth, Nat.max_le] at h
    rw [limitedMembers, limited_of_depth_le h.1, limitedMembers_of_depth_le h.2]

end

mutual

/-- Of a value that holds one in all its parts, no part is left out exactly if its brackets nest no
deeper than may be opened. -/
theorem isReadable_limited (n : Nat) : ∀ {j : Json}, j.isReadable = true →
    ((j.limited n).isReadable = true ↔ j.depth ≤ n)
  | .null, _ | .bool _, _ | .integer _, _ | .single _, _ | .double _, _ | .string _, _ => by
    simp [limited, isReadable, depth]
  | .unreadable, h => by simp [isReadable] at h
  | .array items, h => by
    cases n with
    | zero => simp [isReadable, depth]
    | succ n =>
      rw [limited_array_succ, ← limitedItems_eq, isReadable, itemsReadable_limited n h, depth,
        Nat.add_le_add_iff_right]
  | .object members, h => by
    cases n with
    | zero => simp [isReadable, depth]
    | succ n =>
      rw [limited_object_succ, ← limitedMembers_eq, isReadable, membersReadable_limited n h, depth,
        Nat.add_le_add_iff_right]

theorem itemsReadable_limited (n : Nat) : ∀ {items : List Json}, itemsReadable items = true →
    (itemsReadable (limitedItems n items) = true ↔ itemsDepth items ≤ n)
  | [], _ => by simp [limitedItems, itemsReadable, itemsDepth]
  | item :: rest, h => by
    rw [itemsReadable, Bool.and_eq_true] at h
    rw [limitedItems, itemsReadable, itemsDepth, Bool.and_eq_true, Nat.max_le,
      isReadable_limited n h.1, itemsReadable_limited n h.2]

theorem membersReadable_limited (n : Nat) : ∀ {members : List (String × Json)},
    membersReadable members = true →
      (membersReadable (limitedMembers n members) = true ↔ membersDepth members ≤ n)
  | [], _ => by simp [limitedMembers, membersReadable, membersDepth]
  | (_, value) :: rest, h => by
    rw [membersReadable, Bool.and_eq_true] at h
    rw [limitedMembers, membersReadable, membersDepth, Bool.and_eq_true, Nat.max_le,
      isReadable_limited n h.1, membersReadable_limited n h.2]

end

end Json

end Dataflow
