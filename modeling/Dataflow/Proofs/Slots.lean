import Mathlib.Data.List.Sort
import Dataflow.Proofs.Answer

/-! # Input slots

    The entries for the inputs of a node are those of its leaving, which happens
    once. They describe every input in a slot of its own and count its branches
    there, and nothing else changes the slots of a node with a vertex.

    Main statements:
    - `inputs_fullLayout`: the slot of every input of a node with a vertex
    - `inputs_of_fused`: the slot of a fused node
    - `keys_fullLayout`: the slots are numbered as the inputs are
-/

namespace Dataflow

/-! ## Section 1: Maps by position -/

/-- A map with a value exactly under the numbers below a bound lists these numbers. -/
theorem SortedMap.keys_eq_range {ν : Type} {m : SortedMap Nat ν} {k : Nat}
    (h : ∀ i, (m.get? i).isSome = true ↔ i < k) : m.keys = List.range k := by
  have hlt : m.keys.Pairwise (· < ·) :=
    List.pairwise_map.mpr (m.increasing.imp fun hab => Nat.compare_eq_lt.mp hab)
  have hmem : ∀ i, i ∈ m.keys ↔ i ∈ List.range k := by
    intro i
    rw [List.mem_range, ← h i, Option.isSome_iff_exists, keys, List.mem_map]
    constructor
    · rintro ⟨⟨j, v⟩, he, rfl⟩
      exact ⟨v, (m.get?_eq_some_iff j v).mpr he⟩
    · rintro ⟨v, hv⟩
      exact ⟨(i, v), (m.get?_eq_some_iff i v).mp hv, rfl⟩
  have hperm : m.keys.Perm (List.range k) :=
    (List.perm_ext_iff_of_nodup (hlt.imp Nat.ne_of_lt) List.nodup_range).mpr hmem
  exact hperm.eq_of_pairwise (fun i j _ _ hij hji => absurd hij (Nat.lt_asymm hji)) hlt
    List.pairwise_lt_range

namespace Plan

open Lowering

variable {p : Plan} {policy : SpillPolicy}

/-! ## Section 2: The slots of a node -/

/-- An entry is for an input of a node. -/
def Entry.For (id : NodeId) : Entry → Prop
  | made _ => False
  | wired n _ _ => n.id = id
  | described n _ _ => n.id = id
  | hosted n _ => n.id = id

/-- The slot of an input as its channel and its branches ask for it. -/
def slotOf (policy : SpillPolicy) (p : Plan) (ch : Channel) : InputSlot :=
  ({ wires := UInt32.ofNat (p.flat ch).length } : InputSlot).describe policy ch

theorem configStep_inputs_of_not_for {n : Node} {e : Entry} (h : ¬ e.For n.id) (t : TaskConfig) :
    (p.configStep policy n t e).inputs = t.inputs := by
  cases e with
  | made m => rfl
  | wired m i b =>
    simp only [configStep, if_neg (show ¬ m.id = n.id from h)]
    split <;> rfl
  | described m i ch => simp only [configStep, if_neg (show ¬ m.id = n.id from h)]
  | hosted m ch =>
    simp only [configStep, if_neg (show ¬ m.id = n.id from h)]
    split <;> rfl

theorem foldl_inputs_of_not_for {n : Node} {j : List Entry} (h : ∀ e ∈ j, ¬ e.For n.id)
    (t : TaskConfig) : (j.foldl (p.configStep policy n) t).inputs = t.inputs := by
  induction j generalizing t with
  | nil => rfl
  | cons e j ih =>
    rw [List.foldl_cons, ih fun e he => h e (List.mem_cons_of_mem _ he),
      configStep_inputs_of_not_for (h e (List.mem_cons_self ..))]

/-- What an entry for an input changes is the slot of this input. -/
theorem configStep_wired_inputs (n : Node) (t : TaskConfig) (i : Nat) (b : Channel) :
    (p.configStep policy n t (.wired n i b)).inputs =
      t.inputs.update i {} fun slot => { slot with wires := slot.wires + 1 } := by
  simp only [configStep, if_true]
  split <;> rfl

theorem configStep_described_inputs (n : Node) (t : TaskConfig) (i : Nat) (ch : Channel) :
    (p.configStep policy n t (.described n i ch)).inputs =
      t.inputs.update i {} fun slot => slot.describe policy ch := by
  simp only [configStep, if_true]
  rfl

theorem get?_update (m : SortedMap Nat InputSlot) (i : Nat) (f : InputSlot → InputSlot) (k : Nat) :
    (m.update i {} f).get? k = if i = k then some (f ((m.get? i).getD {})) else m.get? k :=
  m.get?_insert i _ k

/-- The wires of the branches of an input are counted at its slot. -/
theorem foldl_wired_inputs (policy : SpillPolicy) (n : Node) (i : Nat) (branches : List Channel)
    (t : TaskConfig) :
    let t' := (branches.map (.wired n i)).foldl (p.configStep policy n) t
    ((t'.inputs.get? i).getD {} =
      let slot := (t.inputs.get? i).getD {}
      { slot with wires := slot.wires + UInt32.ofNat branches.length }) ∧
    ∀ k, i ≠ k → t'.inputs.get? k = t.inputs.get? k := by
  induction branches generalizing t with
  | nil => simp
  | cons b rest ih =>
    obtain ⟨hslot, hrest⟩ := ih (p.configStep policy n t (.wired n i b))
    rw [configStep_wired_inputs] at hslot hrest
    refine ⟨?_, fun k hk => ?_⟩
    · -- The counts are numbers of a machine, and these add up in any order.
      rw [List.map_cons, List.foldl_cons, hslot, get?_update, if_pos rfl]
      simp only [Option.getD_some, List.length_cons, UInt32.ofNat_add]
      simp only [InputSlot.mk.injEq, and_true]
      rw [UInt32.add_assoc, UInt32.add_comm 1]
      rfl
    · rw [List.map_cons, List.foldl_cons, hrest k hk, get?_update, if_neg hk]

/-- The entries of an input make its slot. -/
theorem foldl_slotEntries_inputs (policy : SpillPolicy) (n : Node) {c : ChannelId} {ch : Channel}
    (hch : p.channel? c = some ch) (i : Nat) (t : TaskConfig) (hnew : t.inputs.get? i = none)
    (k : Nat) :
    ((p.slotEntries n (c, i)).foldl (p.configStep policy n) t).inputs.get? k =
      if i = k then some (slotOf policy p ch) else t.inputs.get? k := by
  obtain ⟨hslot, hrest⟩ := foldl_wired_inputs (p := p) policy n i (p.flat ch) t
  simp only [slotEntries, hch, List.foldl_append, List.foldl_cons, List.foldl_nil,
    configStep_described_inputs, get?_update, hslot, hnew]
  split
  · simp [slotOf]
  · rename_i hk
    exact hrest k hk

/-- The entries of the inputs from some position on make their slots and leave those before. -/
theorem foldl_inputs (policy : SpillPolicy) (n : Node) {inputs : List ChannelId}
    (hinputs : ∀ c ∈ inputs, ∃ ch, p.channel? c = some ch) (start : Nat) (t : TaskConfig)
    (hnew : ∀ k, start ≤ k → t.inputs.get? k = none) :
    let t' := ((inputs.zipIdx start).flatMap (p.slotEntries n)).foldl (p.configStep policy n) t
    (∀ k, k < start → t'.inputs.get? k = t.inputs.get? k) ∧
    ∀ k, t'.inputs.get? (start + k) = (inputs[k]?.bind p.channel?).map (slotOf policy p) := by
  induction inputs generalizing start t with
  | nil =>
    refine ⟨fun k _ => rfl, fun k => ?_⟩
    simpa using hnew (start + k) (Nat.le_add_right ..)
  | cons c rest ih =>
    obtain ⟨ch, hch⟩ := hinputs c (List.mem_cons_self ..)
    -- The entries of the first input make its slot, and those of the others leave it as it is.
    have hfirst := foldl_slotEntries_inputs policy n hch start t
      (hnew start (Nat.le_refl _))
    obtain ⟨hbefore, hafter⟩ := ih (fun c hc => hinputs c (List.mem_cons_of_mem _ hc)) (start + 1)
      ((p.slotEntries n (c, start)).foldl (p.configStep policy n) t) fun k hk => by
        rw [hfirst, if_neg (by omega)]
        exact hnew k (by omega)
    simp only [List.zipIdx_cons, List.flatMap_cons, List.foldl_append]
    refine ⟨fun k hk => ?_, fun k => ?_⟩
    · rw [hbefore k (by omega), hfirst, if_neg (by omega)]
    · cases k with
      | zero =>
        have := (hbefore start (Nat.lt_succ_self _)).trans (hfirst start)
        simpa [hch] using this
      | succ k =>
        have := hafter k
        rw [show start + (k + 1) = start + 1 + k by omega]
        simpa using this

theorem for_of_mem_entries {n : Node} {cb : Callback} (hcb : p.node? cb.node.id = some cb.node)
    {e : Entry} (he : e ∈ p.entries cb) (hfor : e.For n.id) (hn : p.node? n.id = some n) :
    cb = .leave n := by
  cases p.of_mem_entries hcb he with
  | made m => exact hfor.elim
  | hosted h => exact congrArg Callback.leave (p.node?_inj hcb hn hfor)
  | wired hf hi hch hb => exact congrArg Callback.leave (p.node?_inj hcb hn hfor)
  | described hf hi hch => exact congrArg Callback.leave (p.node?_inj hcb hn hfor)

theorem baseConfig_inputs (n : Node) : (p.baseConfig policy n).inputs = .empty := by
  simp only [baseConfig]
  split <;> rfl

/-- In the end the slots of a node that is reached are those that its leaving makes of no slots at
all. -/
theorem exists_inputs_fullLayout (policy : SpillPolicy) {n : Node} (hn : n ∈ p.entered) :
    ∃ t : TaskConfig, t.inputs = .empty ∧ ((p.fullLayout policy).config n).inputs =
      ((p.entries (.leave n)).foldl (p.configStep policy n) t).inputs := by
  obtain ⟨hnode, hu, hreach⟩ := p.mem_entered.mp hn
  -- The entries for the node are those of its leaving, which happens once.
  have hleave : .leave n ∈ p.schedule := p.mem_schedule.mpr ⟨hnode, hu, hreach⟩
  obtain ⟨pre, post, hsplit⟩ := List.append_of_mem hleave
  have hnodup := hsplit ▸ p.nodup_schedule
  have hother : ∀ cb ∈ p.schedule, cb ≠ .leave n → ∀ e ∈ p.entries cb, ¬ e.For n.id :=
    fun cb hcb hne e he hfor =>
      hne (for_of_mem_entries (p.mem_schedule.mp hcb).1 he hfor hnode)
  have hpre : ∀ e ∈ p.journal pre, ¬ e.For n.id := by
    intro e he
    obtain ⟨cb, hcb, he⟩ := List.mem_flatMap.mp he
    refine hother cb (by simp [hsplit, hcb]) ?_ e he
    rintro rfl
    exact (List.nodup_append.mp hnodup).2.2 _ hcb _ (List.mem_cons_self ..) rfl
  have hpost : ∀ e ∈ p.journal post, ¬ e.For n.id := by
    intro e he
    obtain ⟨cb, hcb, he⟩ := List.mem_flatMap.mp he
    refine hother cb (by simp [hsplit, hcb]) ?_ e he
    rintro rfl
    exact (List.nodup_cons.mp (List.nodup_append.mp hnodup).2.1).1 hcb
  have hjournal : p.journal p.schedule =
      p.journal pre ++ (p.entries (.leave n) ++ p.journal post) := by
    rw [hsplit, journal_append]
    simp [journal]
  -- The start of the journal leaves no slots, and the end leaves those of the node.
  refine ⟨(p.journal pre).foldl (p.configStep policy n) (p.baseConfig policy n), ?_, ?_⟩
  · rw [foldl_inputs_of_not_for hpre, baseConfig_inputs]
  · simp only [fullLayout, layoutAfter, configAfter, hjournal, List.foldl_append]
    rw [foldl_inputs_of_not_for hpost]

/-- In the end a node with a vertex has one slot for each of its inputs, and no other. -/
theorem inputs_fullLayout (policy : SpillPolicy) {n : Node} (hn : n ∈ p.ownNodes) (i : Nat) :
    ((p.fullLayout policy).config n).inputs.get? i =
      (n.inputs[i]?.bind p.channel?).map (slotOf policy p) := by
  obtain ⟨hentered, hf⟩ := p.mem_ownNodes.mp hn
  have hnode := (p.mem_entered.mp hentered).1
  obtain ⟨t, hempty, hinputs⟩ := exists_inputs_fullLayout policy hentered
  have hentries : p.entries (.leave n) = n.inputs.zipIdx.flatMap (p.slotEntries n) := by
    simp [entries, hf]
  have hslots := (foldl_inputs policy n (p.exists_channels hnode) 0 t fun k _ => by
    rw [hempty]
    rfl).2 i
  rw [hinputs, hentries]
  simpa using hslots

/-- In the end a fused node has one slot, which says how its channel is serialized. -/
theorem inputs_of_fused (policy : SpillPolicy) {n : Node} (hn : n ∈ p.entered) {ch : Channel}
    {producer : Node} (h : p.Fused n ch producer) : ((p.fullLayout policy).config n).inputs =
      SortedMap.empty.update 0 {} fun slot => { slot with serializer := some ch.serializer } := by
  obtain ⟨t, hempty, hinputs⟩ := exists_inputs_fullLayout policy hn
  rw [hinputs, entries_of_fused h, ← hempty]
  simp only [List.foldl_cons, List.foldl_nil, configStep, if_true]
  rfl

/-- The slots of a node with a vertex are numbered as its inputs are. -/
theorem keys_fullLayout {n : Node} (hn : n ∈ p.ownNodes) :
    ((p.fullLayout policy).config n).inputs.keys = List.range n.inputs.length := by
  have hnode := p.node?_of_own hn
  apply SortedMap.keys_eq_range
  intro i
  rw [inputs_fullLayout policy hn]
  cases hc : n.inputs[i]? with
  | none =>
    have := List.getElem?_eq_none_iff.mp hc
    simp [this]
  | some c =>
    obtain ⟨ch, hch, -⟩ := p.exists_channel hnode (List.mem_of_getElem? hc)
    have := (List.getElem?_eq_some_iff.mp hc).1
    simp [hch, this]

end Plan

end Dataflow
