/-! # Sorted maps

    A map is its list of entries, with strictly increasing keys. The order is
    part of the type, so a map has one representation: two maps that answer
    every lookup alike are equal, and listing the entries is reading the field.

    Main statements:
    - `get?_insert`: a lookup after an insertion
    - `get?_ofList_eq_some_iff`: the lookups in a map of entries
    - `ext_get?`: maps with equal lookups are equal
-/

universe u v

namespace Dataflow

/-! ## Section 1: Entries in key order -/

/-- The entries, with strictly increasing keys, and `k ↦ v` put in its place. -/
def insertEntry {κ : Type u} {ν : Type v} [Ord κ] (k : κ) (v : ν) : List (κ × ν) → List (κ × ν)
  | [] => [(k, v)]
  | (k', v') :: rest =>
    match compare k k' with
    | .lt => (k, v) :: (k', v') :: rest
    | .eq => (k, v) :: rest
    | .gt => (k', v') :: insertEntry k v rest

/-- Strictly increasing keys. -/
abbrev KeysIncrease {κ : Type u} {ν : Type v} [Ord κ] (entries : List (κ × ν)) : Prop :=
  entries.Pairwise fun a b => compare a.1 b.1 = .lt

/-- No key stands with two values. -/
def KeysDetermine {κ : Type u} {ν : Type v} (entries : List (κ × ν)) : Prop :=
  ∀ k v w, (k, v) ∈ entries → (k, w) ∈ entries → v = w

section
variable {κ : Type u} {ν : Type v} [Ord κ]

theorem mem_insertEntry {k : κ} {v : ν} {l : List (κ × ν)} {e : κ × ν}
    (h : e ∈ insertEntry k v l) : e = (k, v) ∨ e ∈ l := by
  induction l with
  | nil => simpa [insertEntry] using h
  | cons head rest ih =>
    obtain ⟨k', v'⟩ := head
    simp only [insertEntry] at h
    split at h
    · simpa using h
    · simp only [List.mem_cons] at h ⊢
      rcases h with h | h
      · exact Or.inl h
      · exact Or.inr (Or.inr h)
    · simp only [List.mem_cons] at h ⊢
      rcases h with h | h
      · exact Or.inr (Or.inl h)
      · rcases ih h with h | h
        · exact Or.inl h
        · exact Or.inr (Or.inr h)

theorem KeysIncrease.insertEntry [Std.TransOrd κ] {l : List (κ × ν)} (h : KeysIncrease l) (k : κ) (v : ν) :
    KeysIncrease (insertEntry k v l) := by
  induction l with
  | nil => simp [Dataflow.insertEntry, KeysIncrease]
  | cons head rest ih =>
    obtain ⟨k', v'⟩ := head
    have hrest : KeysIncrease rest := (List.pairwise_cons.mp h).2
    have hhead : ∀ e ∈ rest, compare k' e.1 = .lt := (List.pairwise_cons.mp h).1
    simp only [Dataflow.insertEntry]
    split
    case h_1 hlt =>
      refine List.pairwise_cons.mpr ⟨?_, h⟩
      intro e he
      rcases List.mem_cons.mp he with rfl | he
      · exact hlt
      · exact Std.TransCmp.lt_trans hlt (hhead e he)
    case h_2 heq =>
      refine List.pairwise_cons.mpr ⟨?_, hrest⟩
      intro e he
      exact Std.TransCmp.lt_of_eq_of_lt heq (hhead e he)
    case h_3 hgt =>
      refine List.pairwise_cons.mpr ⟨?_, ih hrest⟩
      intro e he
      rcases mem_insertEntry he with rfl | he
      · exact Std.OrientedCmp.gt_iff_lt.mp hgt
      · exact hhead e he

end

/-! ## Section 2: The map -/

/-- A map from keys to values, kept in the order of its keys. -/
structure SortedMap (κ : Type u) (ν : Type v) [Ord κ] where
  /-- The entries in key order. -/
  entries : List (κ × ν)
  /-- No key stands twice, and the order is that of the keys. -/
  increasing : KeysIncrease entries

namespace SortedMap

variable {κ : Type u} {ν : Type v} [Ord κ]

@[ext] theorem ext {a b : SortedMap κ ν} (h : a.entries = b.entries) : a = b := by
  cases a; cases b; cases h; rfl

instance [DecidableEq κ] [DecidableEq ν] : DecidableEq (SortedMap κ ν) := fun a b =>
  if h : a.entries = b.entries then isTrue (ext h)
  else isFalse fun hab => h (congrArg entries hab)

/-- The map without entries. -/
def empty : SortedMap κ ν := ⟨[], List.Pairwise.nil⟩

instance : EmptyCollection (SortedMap κ ν) := ⟨empty⟩
instance : Inhabited (SortedMap κ ν) := ⟨empty⟩

/-- The number of keys. -/
def size (m : SortedMap κ ν) : Nat := m.entries.length

/-- Whether the map has no entry. -/
def isEmpty (m : SortedMap κ ν) : Bool := m.entries.isEmpty

/-- The keys in order. -/
def keys (m : SortedMap κ ν) : List κ := m.entries.map Prod.fst

/-- The value under a key. -/
def get? (m : SortedMap κ ν) (k : κ) : Option ν :=
  (m.entries.find? fun e => compare e.1 k == .eq).map Prod.snd

/-- Whether a key has a value. -/
def contains (m : SortedMap κ ν) (k : κ) : Bool := (m.get? k).isSome

section
variable [Std.TransOrd κ]

/-- The map with `k ↦ v`, in place of what `k` had before. -/
def insert (m : SortedMap κ ν) (k : κ) (v : ν) : SortedMap κ ν :=
  ⟨insertEntry k v m.entries, m.increasing.insertEntry k v⟩

/-- The entries inserted one after another: of two with one key the later wins. -/
def insertAll (m : SortedMap κ ν) (entries : List (κ × ν)) : SortedMap κ ν :=
  entries.foldl (fun m e => m.insert e.1 e.2) m

/-- The map of a list of entries: of two with one key the later wins. -/
def ofList (entries : List (κ × ν)) : SortedMap κ ν := empty.insertAll entries

/-- The value under a key passed through `f`, where a missing value counts as `default`. -/
def update (m : SortedMap κ ν) (k : κ) (default : ν) (f : ν → ν) : SortedMap κ ν :=
  m.insert k (f ((m.get? k).getD default))

end

/-! ## Section 3: Lookups -/

@[simp] theorem get?_empty (k : κ) : (empty : SortedMap κ ν).get? k = none := rfl

section
variable [Std.LawfulEqOrd κ]

theorem find?_insertEntry [DecidableEq κ] (l : List (κ × ν)) (h : KeysIncrease l) (k : κ) (v : ν) (k' : κ) :
    ((insertEntry k v l).find? fun e => compare e.1 k' == .eq) =
      if k = k' then some (k, v) else l.find? fun e => compare e.1 k' == .eq := by
  induction l with
  | nil =>
    by_cases hk : k = k'
    · subst hk; simp [insertEntry]
    · simp [insertEntry, hk]
  | cons head rest ih =>
    obtain ⟨k₀, v₀⟩ := head
    have hhead : ∀ e ∈ rest, compare k₀ e.1 = .lt := (List.pairwise_cons.mp h).1
    have ih := ih (List.pairwise_cons.mp h).2
    simp only [insertEntry]
    split
    case h_1 hlt =>
      by_cases hk : k = k'
      · subst hk; simp
      · simp [List.find?_cons, hk]
    case h_2 heq =>
      have heq := Std.LawfulEqCmp.eq_of_compare heq
      subst heq
      by_cases hk : k = k'
      · subst hk; simp
      · simp [hk]
    case h_3 hgt =>
      have hne : k ≠ k₀ := by
        intro he
        subst he
        simp at hgt
      by_cases hk : k = k'
      · subst hk
        simp only [if_true] at ih
        simp only [List.find?_cons, if_true]
        have : (compare k₀ k == Ordering.eq) = false := by
          simpa using fun he => hne he.symm
        simp [this, ih]
      · simp only [if_neg hk] at ih ⊢
        simp only [List.find?_cons]
        split
        · rfl
        · exact ih

/-- An insertion answers for its own key and leaves the others. -/
theorem get?_insert [Std.TransOrd κ] [DecidableEq κ] (m : SortedMap κ ν) (k : κ) (v : ν) (k' : κ) :
    (m.insert k v).get? k' = if k = k' then some v else m.get? k' := by
  unfold get? insert
  rw [find?_insertEntry m.entries m.increasing]
  split <;> rfl

@[simp] theorem get?_insert_self [Std.TransOrd κ] [DecidableEq κ] (m : SortedMap κ ν) (k : κ) (v : ν) :
    (m.insert k v).get? k = some v := by
  simp [get?_insert]

theorem get?_insert_ne [Std.TransOrd κ] [DecidableEq κ] (m : SortedMap κ ν) {k k' : κ} (v : ν) (h : k ≠ k') :
    (m.insert k v).get? k' = m.get? k' := by
  simp [get?_insert, h]

/-- A lookup finds exactly the listed entries. -/
theorem get?_eq_some_iff (m : SortedMap κ ν) (k : κ) (v : ν) :
    m.get? k = some v ↔ (k, v) ∈ m.entries := by
  obtain ⟨l, h⟩ := m
  unfold get?
  simp only
  induction l with
  | nil => simp
  | cons head rest ih =>
    obtain ⟨k₀, v₀⟩ := head
    have hhead : ∀ e ∈ rest, compare k₀ e.1 = .lt := (List.pairwise_cons.mp h).1
    have ih := ih (List.pairwise_cons.mp h).2
    by_cases hk : k₀ = k
    · subst hk
      simp only [List.find?_cons, Std.ReflOrd.compare_self, BEq.rfl, Option.map_some,
        Option.some.injEq, List.mem_cons, Prod.mk.injEq, true_and]
      constructor
      · intro h; exact Or.inl h.symm
      · intro h
        rcases h with h | h
        · exact h.symm
        · have := hhead _ h
          simp at this
    · have hfalse : (compare k₀ k == Ordering.eq) = false := by simpa using hk
      simp only [List.find?_cons, hfalse, List.mem_cons, Prod.mk.injEq]
      rw [ih]
      constructor
      · exact Or.inr
      · intro h
        rcases h with ⟨h, _⟩ | h
        · exact absurd h.symm hk
        · exact h

/-- Where a key determines its value, every entry is found, and only what was there under other
keys. -/
theorem get?_insertAll_eq_some_iff [Std.TransOrd κ] [DecidableEq κ] (m : SortedMap κ ν)
    {l : List (κ × ν)} (h : KeysDetermine l) (k : κ) (v : ν) :
    (m.insertAll l).get? k = some v ↔
      (k, v) ∈ l ∨ ((∀ w, (k, w) ∉ l) ∧ m.get? k = some v) := by
  induction l generalizing m with
  | nil => simp [insertAll]
  | cons e rest ih =>
    obtain ⟨k₀, v₀⟩ := e
    have hrest : KeysDetermine rest := fun k v w hv hw =>
      h k v w (List.mem_cons_of_mem _ hv) (List.mem_cons_of_mem _ hw)
    have hstep : (m.insertAll ((k₀, v₀) :: rest)) = (m.insert k₀ v₀).insertAll rest := rfl
    rw [hstep, ih (m.insert k₀ v₀) hrest, get?_insert]
    by_cases hk : k₀ = k
    · subst hk
      rw [if_pos rfl, Option.some.injEq]
      constructor
      · intro hv
        rcases hv with hv | ⟨-, rfl⟩
        · exact Or.inl (List.mem_cons_of_mem _ hv)
        · exact Or.inl (List.mem_cons_self ..)
      · intro hv
        rcases hv with hv | ⟨hnone, -⟩
        · obtain rfl := h _ _ _ hv (List.mem_cons_self ..)
          by_cases hw : ∃ w, (k₀, w) ∈ rest
          · obtain ⟨w, hw⟩ := hw
            obtain rfl := h _ _ _ hv (List.mem_cons_of_mem _ hw)
            exact Or.inl hw
          · exact Or.inr ⟨fun w hmem => hw ⟨w, hmem⟩, rfl⟩
        · exact absurd (List.mem_cons_self ..) (hnone v₀)
    · have hk' : k ≠ k₀ := fun heq => hk heq.symm
      simp [hk, hk']

/-- A map of entries in which a key determines its value holds these entries. -/
theorem get?_ofList_eq_some_iff [Std.TransOrd κ] [DecidableEq κ] {l : List (κ × ν)}
    (h : KeysDetermine l) (k : κ) (v : ν) : (ofList l).get? k = some v ↔ (k, v) ∈ l := by
  unfold ofList
  rw [get?_insertAll_eq_some_iff empty h]
  simp

/-- Maps with equal lookups are equal. -/
theorem ext_get? [Std.TransOrd κ] {a b : SortedMap κ ν} (h : ∀ k, a.get? k = b.get? k) : a = b := by
  apply ext
  have hmem : ∀ e, e ∈ a.entries ↔ e ∈ b.entries := by
    intro e
    rw [← get?_eq_some_iff a e.1 e.2, ← get?_eq_some_iff b e.1 e.2, h]
  have key : ∀ (l l' : List (κ × ν)), KeysIncrease l → KeysIncrease l' →
      (∀ e, e ∈ l ↔ e ∈ l') → l = l' := by
    intro l
    induction l with
    | nil =>
      intro l' _ _ hm
      cases l' with
      | nil => rfl
      | cons e _ => exact absurd ((hm e).mpr (List.mem_cons_self ..)) (by simp)
    | cons x xs ih =>
      intro l' hl hl' hm
      cases l' with
      | nil => exact absurd ((hm x).mp (List.mem_cons_self ..)) (by simp)
      | cons y ys =>
        have hx := List.pairwise_cons.mp hl
        have hy := List.pairwise_cons.mp hl'
        have hxy : x = y := by
          rcases List.mem_cons.mp ((hm x).mp (List.mem_cons_self ..)) with h | h
          · exact h
          rcases List.mem_cons.mp ((hm y).mpr (List.mem_cons_self ..)) with h' | h'
          · exact h'.symm
          have h1 := hy.1 x h
          have h2 := hx.1 y h'
          have := Std.OrientedCmp.gt_iff_lt.mpr h1
          rw [h2] at this
          exact absurd this (by simp)
        subst hxy
        congr 1
        refine ih ys hx.2 hy.2 fun e => ?_
        constructor
        · intro he
          rcases List.mem_cons.mp ((hm e).mp (List.mem_cons_of_mem _ he)) with h | h
          · subst h
            have := hx.1 e he
            simp at this
          · exact h
        · intro he
          rcases List.mem_cons.mp ((hm e).mpr (List.mem_cons_of_mem _ he)) with h | h
          · subst h
            have := hy.1 e he
            simp at this
          · exact h
  exact key a.entries b.entries a.increasing b.increasing hmem

/-- A map is that of its entries. -/
theorem ofList_entries [Std.TransOrd κ] [DecidableEq κ] (m : SortedMap κ ν) : ofList m.entries = m := by
  have hkeys : KeysDetermine m.entries := by
    intro k v w hv hw
    rw [← m.get?_eq_some_iff] at hv hw
    exact Option.some.inj (hv.symm.trans hw)
  apply ext_get?
  intro k
  apply Option.ext
  intro v
  rw [get?_ofList_eq_some_iff hkeys, m.get?_eq_some_iff]

end

end SortedMap

end Dataflow
