import Mathlib.Data.List.Perm.Basic
import Dataflow.Proofs.Slots

/-! # Wires of the graph

    The wires of a graph stand at the vertices that they leave from; a plan asks
    for them at the nodes that they enter. Both are the wires of the journal,
    sorted in different ways, so that none is lost, doubled or added.

    Main statement:
    - `edges_exact`: a compilation makes exactly the wires that the plan asks
      for, and a slot counts the branches of its input
-/

namespace Dataflow

namespace Lowering

open Plan (Channel)

/-! ## Section 1: The wires that a plan asks for -/

/-- The vertex that runs a node: its own, or the one that hosts it. -/
def Placement.vertex? : Placement → Option VertexId
  | vertex id => some id
  | chained place => some place.host
  | spliced => none

/-- The edge for a branch of an input of a vertex, if the source of the branch has a vertex and its
ship strategy has a wire. -/
def Report.edge? (r : Report) (target : VertexId) (branch : Channel) : Option Edge := do
  let source ← (← r.placement? branch.source).vertex?
  let (transport, pattern) ← branch.ship.wire.toOption
  return { source, target, transport, pattern }

end Lowering

namespace Plan

open Lowering

/-- The edges that a node asks for: one for each branch of each input if it has a vertex. -/
def askedBy (p : Plan) (r : Report) (n : Node) : List (Option Edge) :=
  match r.placement? n.id with
  | some (.vertex target) => n.inputs.flatMap fun c => (p.branchesOf c).map (r.edge? target)
  | _ => []

/-- The branches that are wired into the vertex of a node, with this vertex: those of its inputs in slot
order. -/
def wiresInto (p : Plan) (r : Report) (n : Node) : List (VertexId × Channel) :=
  match r.placement? n.id with
  | some (.vertex target) => n.inputs.flatMap fun c => (p.branchesOf c).map (target, ·)
  | _ => []

theorem askedBy_eq (p : Plan) (r : Report) (n : Node) :
    p.askedBy r n = (p.wiresInto r n).map fun wire => r.edge? wire.1 wire.2 := by
  unfold askedBy wiresInto
  split
  · simp only [List.map_flatMap, List.map_map]
    rfl
  · rfl

/-- The edges that a plan asks for. -/
def asked (p : Plan) (r : Report) : List (Option Edge) := p.nodes.toList.flatMap (p.askedBy r)

variable {p : Plan} {policy : SpillPolicy} {job : JobId}

/-! ## Section 2: Placements in the answer -/

/-- A report says for every node where the plan has it placed. -/
def Places (p : Plan) (r : Report) : Prop := ∀ id, r.placement? id = (p.node? id).bind p.placementOf

theorem places_answer (lead : Node) : p.Places (p.answer policy job lead).report := by
  intro id
  simp only [Report.placement?, answer, Parts.node?, Array.getElem?_map]
  cases p.nodes[id.index]? <;> rfl

theorem placementOf_entered {n : Node} (hn : n ∈ p.entered) : p.placementOf n =
    some (if p.fuses n then .chained (p.placeOf n) else .vertex (p.vertexOf n.id)) := by
  rw [placementOf, if_neg (by simp [(p.mem_entered.mp hn).2.1]), if_pos hn]

variable {r : Report}

theorem Places.entered (h : p.Places r) {n : Node} (hn : n ∈ p.entered) : r.placement? n.id =
    some (if p.fuses n then .chained (p.placeOf n) else .vertex (p.vertexOf n.id)) := by
  rw [h n.id, (p.mem_entered.mp hn).1, Option.bind_some, placementOf_entered hn]

/-- The vertex that runs a node is that of its host. -/
theorem Places.vertex? (h : p.Places r) {n : Node} (hn : n ∈ p.entered) :
    (r.placement? n.id).bind Placement.vertex? = some (p.vertexOf (p.host n.id)) := by
  rw [h.entered hn, Option.bind_some]
  cases hf : p.fuses n with
  | true => rfl
  | false =>
    rw [p.host_of_not_fuses (p.mem_entered.mp hn).1 hf]
    rfl

/-- A node has a vertex exactly if it is reached and not fused. -/
theorem Places.vertex_iff (h : p.Places r) {n : Node} (hn : p.node? n.id = some n) (t : VertexId) :
    r.placement? n.id = some (.vertex t) ↔ n ∈ p.ownNodes ∧ t = p.vertexOf n.id := by
  rw [h n.id, hn, Option.bind_some, placementOf, mem_ownNodes]
  constructor
  · intro h
    split at h
    · simp at h
    · split at h
      · rename_i hentered
        split at h
        · simp at h
        · rename_i hf
          exact ⟨⟨hentered, by simpa using hf⟩, by simpa using h.symm⟩
      · simp at h
  · rintro ⟨⟨hentered, hf⟩, rfl⟩
    rw [if_neg (by simp [(p.mem_entered.mp hentered).2.1]), if_pos hentered, if_neg (by simp [hf])]

/-! ## Section 3: Edges of the graph -/

/-- The edge of an entry, if it is for a wire. -/
def edgeOf? (p : Plan) : Entry → Option Edge
  | .wired n _ b => b.ship.wire.toOption.map fun (transport, pattern) =>
    { source := p.vertexOf (p.host b.source), target := p.vertexOf n.id, transport, pattern }
  | _ => none

/-- The node whose vertex a wire leaves from. -/
def origin (p : Plan) : Entry → NodeId
  | .wired _ _ b => p.host b.source
  | .made n | .described n _ _ | .hosted n _ => n.id

/-- The edges of a vertex are those of the wires that leave from it. -/
theorem edges_fullVertex (n : Node) : (p.fullVertex policy n).edges =
    (p.journal p.schedule).filterMap fun e => if p.origin e = n.id then p.edgeOf? e else none := by
  show List.map (fun w : Wire => (⟨p.vertexOf n.id, w.target, w.transport, w.pattern⟩ : Edge))
    (p.wiresAfter (p.journal p.schedule) n.id) = _
  rw [wiresAfter, List.map_filterMap]
  congr 1
  funext e
  cases e with
  | wired m i b =>
    by_cases hhost : p.host b.source = n.id
    · simp [wireFrom?, origin, edgeOf?, hhost, Function.comp_def]
    · simp [wireFrom?, origin, hhost]
  | made m => simp [wireFrom?, edgeOf?]
  | described m i ch => simp [wireFrom?, edgeOf?]
  | hosted m ch => simp [wireFrom?, edgeOf?]

/-- The edges of the answer are those of the wires of its vertices. -/
theorem edges_answer (lead : Node) : (p.answer policy job lead).graph.edges =
    (p.ownNodes.map Node.id).flatMap fun id =>
      (p.journal p.schedule).filterMap fun e => if p.origin e = id then p.edgeOf? e else none := by
  have hshare : ∀ (v : Vertex) (anchor : VertexId) (t : Option String),
      (if v.id = anchor then { v with instanceType := t } else { v with sharesWith := anchor }).edges =
        v.edges := by
    intro v anchor t
    split <;> rfl
  simp only [JobGraph.edges, answer, Compiler.shareInstances, fullGraph, Array.toList_map,
    List.flatMap_map, hshare, edges_fullVertex]

/-- Where one element of a list has anything, all of it is that of this element. -/
theorem flatMap_of_unique {α β : Type} {l : List α} (hl : l.Nodup) {a : α} (ha : a ∈ l)
    {f : α → List β} (hf : ∀ x ∈ l, x ≠ a → f x = []) : l.flatMap f = f a := by
  obtain ⟨pre, post, rfl⟩ := List.append_of_mem ha
  have hdisjoint := List.nodup_append.mp hl
  have hpre : pre.flatMap f = [] := by
    refine List.flatMap_eq_nil_iff.mpr fun x hx => hf x (by simp [hx]) ?_
    exact hdisjoint.2.2 x hx a (List.mem_cons_self ..)
  have hpost : post.flatMap f = [] := by
    refine List.flatMap_eq_nil_iff.mpr fun x hx => hf x (by simp [hx]) ?_
    rintro rfl
    exact (List.nodup_cons.mp hdisjoint.2.1).1 hx
  rw [List.flatMap_append, List.flatMap_cons, hpre, hpost, List.nil_append, List.append_nil]

/-- An element is taken by its owner, which is one of the keys, and by no other key. -/
theorem flatMap_owner_single {α β κ : Type} [DecidableEq κ] {keys : List κ} (hkeys : keys.Nodup)
    (owner : α → κ) {a : α} (howner : owner a ∈ keys) (b : β) :
    (keys.flatMap fun k => (if owner a = k then some b else none).toList) = [b] := by
  rw [flatMap_of_unique hkeys howner fun k _ hk => by rw [if_neg hk.symm]; rfl, if_pos rfl]
  rfl

/-- Elements sorted by their owners, where each has one among the keys, are the elements in another
order. -/
theorem flatMap_owner_perm {α β κ : Type} [DecidableEq κ] {keys : List κ} (hkeys : keys.Nodup)
    (owner : α → κ) (f : α → Option β) {l : List α}
    (howner : ∀ a ∈ l, (f a).isSome = true → owner a ∈ keys) :
    (keys.flatMap fun k => l.filterMap fun a => if owner a = k then f a else none).Perm
      (l.filterMap f) := by
  induction l with
  | nil => simp
  | cons a l ih =>
    have ih := ih fun b hb => howner b (List.mem_cons_of_mem _ hb)
    have hsplit : ∀ k, (a :: l).filterMap (fun a => if owner a = k then f a else none) =
        (if owner a = k then f a else none).toList ++
          l.filterMap fun a => if owner a = k then f a else none := by
      intro k
      rw [List.filterMap_cons]
      cases (if owner a = k then f a else none) <;> rfl
    have hone : (keys.flatMap fun k => (if owner a = k then f a else none).toList) =
        (f a).toList := by
      cases hf : f a with
      | none => simp
      | some b =>
        exact flatMap_owner_single hkeys owner (howner a (List.mem_cons_self ..) (by simp [hf])) b
    -- The first element is taken out of the list of every key, and put in front of them all.
    simp only [hsplit]
    refine (List.flatMap_append_perm keys _ _).symm.trans ?_
    rw [hone]
    refine (ih.append_left _).trans (List.Perm.of_eq ?_)
    rw [List.filterMap_cons]
    cases f a <;> rfl

/-- The source of a branch of an input of a node that is reached is reached. -/
theorem branch_entered {n : Node} (hn : n ∈ p.entered) {c : ChannelId} (hc : c ∈ n.inputs)
    {b : Channel} (hb : b ∈ p.branchesOf c) : ∃ m ∈ p.entered, m.id = b.source := by
  obtain ⟨hnode, -, hreach⟩ := p.mem_entered.mp hn
  obtain ⟨ch, hch, -, hb⟩ := p.exists_channel_of_branch hnode hc hb
  obtain ⟨-, ⟨m, hm, hmu⟩, hsub, -⟩ := p.mem_flat hch hb
  have hid := p.id_eq hm
  have hmem := hsub (p.enter_mem_callbacks hm hmu)
  exact ⟨m, p.mem_entered.mpr ⟨hid ▸ hm, hmu, (hreach.input hnode hc hch).of_mem_callbacks hmem⟩,
    hid⟩

/-- A wire of the journal is for a branch of an input of a node with a vertex. -/
theorem wired_mem_journal {n : Node} {i : Nat} {b : Channel}
    (h : .wired n i b ∈ p.journal p.schedule) :
    n ∈ p.ownNodes ∧ ∃ c ∈ n.inputs, b ∈ p.branchesOf c := by
  obtain ⟨cb, hcb, he⟩ := List.mem_flatMap.mp h
  have hnode := p.mem_schedule.mp hcb
  cases p.of_mem_entries hnode.1 he with
  | wired hf hi hch hb =>
    refine ⟨p.mem_ownNodes.mpr ⟨p.mem_entered.mpr hnode, hf⟩, _, List.mem_of_getElem? hi, ?_⟩
    simpa [branchesOf, hch] using hb

/-- The edges of the answer are those of the entries, up to order. -/
theorem edges_perm_entries (lead : Node) : (p.answer policy job lead).graph.edges.Perm
    ((p.journal p.schedule).filterMap p.edgeOf?) := by
  rw [edges_answer]
  -- The owner of a wire is the host of its source, which is a node with a vertex.
  refine flatMap_owner_perm (p.nodup_ids_filter fun n => !p.fuses n) p.origin p.edgeOf? ?_
  intro e he hsome
  cases e with
  | wired n i b =>
    obtain ⟨hn, c, hc, hb⟩ := wired_mem_journal he
    obtain ⟨m, hm, hid⟩ := branch_entered (p.mem_ownNodes.mp hn).1 hc hb
    obtain ⟨g, hg, hgid⟩ := exists_host_own hm
    exact List.mem_map.mpr ⟨g, hg, by rw [hgid, hid]; rfl⟩
  | made n => simp [edgeOf?] at hsome
  | described n i ch => simp [edgeOf?] at hsome
  | hosted n ch => simp [edgeOf?] at hsome

/-! ## Section 4: Wires by the vertices that they enter -/

/-- The branch that an entry wires, with the vertex that it enters. -/
def wiredOf? (p : Plan) : Entry → Option (VertexId × Channel)
  | .wired n _ b => some (p.vertexOf n.id, b)
  | .made _ | .described .. | .hosted .. => none

theorem slotEntries_wired (n : Node) (slot : ChannelId × Nat) :
    (p.slotEntries n slot).filterMap p.wiredOf? =
      (p.branchesOf slot.1).map (p.vertexOf n.id, ·) := by
  simp only [slotEntries, branchesOf]
  cases p.channel? slot.1 with
  | none => rfl
  | some ch =>
    rw [List.filterMap_append, List.filterMap_map]
    simp [wiredOf?, Function.comp_def]

/-- The entries for the leaving of a node wire the branches of its inputs, if it has a vertex. -/
theorem Places.entries_wired (hr : p.Places r) {n : Node} (hn : n ∈ p.entered) :
    (p.entries (.leave n)).filterMap p.wiredOf? = p.wiresInto r n := by
  unfold wiresInto
  rw [hr.entered hn]
  cases hf : p.fuses n with
  | true =>
    obtain ⟨ch, producer, hfused⟩ := p.exists_fused (p.mem_entered.mp hn).1 hf
    rw [entries_of_fused hfused]
    rfl
  | false =>
    have hentries : p.entries (.leave n) = n.inputs.zipIdx.flatMap (p.slotEntries n) := by
      simp [entries, hf]
    rw [hentries, List.filterMap_flatMap]
    calc n.inputs.zipIdx.flatMap fun slot => (p.slotEntries n slot).filterMap p.wiredOf?
      _ = n.inputs.zipIdx.flatMap fun slot => (p.branchesOf slot.1).map (p.vertexOf n.id, ·) :=
        List.flatMap_congr fun slot _ => slotEntries_wired n slot
      _ = (n.inputs.zipIdx.map Prod.fst).flatMap fun c => (p.branchesOf c).map
            (p.vertexOf n.id, ·) := by
        rw [List.flatMap_map]
      _ = _ := by rw [List.zipIdx_map_fst]; rfl

/-- The entries wire the branches of the inputs of the nodes that are left, in their order. -/
theorem Places.journal_wired (hr : p.Places r) :
    (p.journal p.schedule).filterMap p.wiredOf? = p.left.flatMap (p.wiresInto r) := by
  have hdone : ∀ cb ∈ p.schedule, cb.node ∈ p.entered :=
    fun cb hcb => p.mem_entered.mpr (p.mem_schedule.mp hcb)
  unfold left
  generalize p.schedule = done at hdone ⊢
  induction done with
  | nil => rfl
  | cons cb rest ih =>
    have ih := ih fun cb hcb => hdone cb (List.mem_cons_of_mem _ hcb)
    have hjournal : p.journal (cb :: rest) = p.entries cb ++ p.journal rest := by simp [journal]
    rw [hjournal, List.filterMap_append, ih]
    cases cb with
    | enter n => rfl
    | leave n =>
      have hn : n ∈ p.entered := hdone _ (List.mem_cons_self ..)
      rw [hr.entries_wired hn]
      rfl

/-! ## Section 5: Without a fault -/

/-- The edge for a branch whose source is reached. -/
theorem Places.edge? (h : p.Places r) {b : Channel} {m : Node} (hm : m ∈ p.entered)
    (hid : m.id = b.source) (t : VertexId) : r.edge? t b =
      b.ship.wire.toOption.map fun (transport, pattern) =>
        { source := p.vertexOf (p.host b.source), target := t, transport, pattern } := by
  have hvertex := h.vertex? hm
  rw [hid] at hvertex
  simp only [Report.edge?, bind, ← Option.bind_assoc, hvertex, Option.bind_some]
  cases b.ship.wire.toOption <;> rfl

section
variable (hfault : p.schedule.findSome? p.callbackFault? = none)
include hfault

/-- Without a fault no input of a node with a vertex has one. -/
theorem slotFault?_eq_none {n : Node} (hn : n ∈ p.ownNodes) {slot : ChannelId × Nat}
    (hslot : slot ∈ n.inputs.zipIdx) : p.slotFault? n slot = none := by
  obtain ⟨hentered, hf⟩ := p.mem_ownNodes.mp hn
  have hleave : .leave n ∈ p.schedule := p.mem_schedule.mpr (p.mem_entered.mp hentered)
  have hnone := List.findSome?_eq_none_iff.mp hfault _ hleave
  simp only [callbackFault?, Option.map_eq_none_iff, leaveFault?, hf, Bool.false_eq_true,
    if_false] at hnone
  exact List.findSome?_eq_none_iff.mp hnone slot hslot

/-- Without a fault every branch of an input of a node with a vertex has a wire. -/
theorem exists_wire {n : Node} (hn : n ∈ p.ownNodes) {c : ChannelId} (hc : c ∈ n.inputs)
    {b : Channel} (hb : b ∈ p.branchesOf c) : ∃ w, b.ship.wire = .ok w := by
  obtain ⟨i, hi⟩ := List.mem_iff_getElem?.mp hc
  have hslot : (c, i) ∈ n.inputs.zipIdx := List.mem_zipIdx_iff_getElem?.mpr hi
  have hnone := slotFault?_eq_none hfault hn hslot
  simp only [slotFault?] at hnone
  split at hnone
  · simp at hnone
  · have hship := List.findSome?_eq_none_iff.mp (Option.or_eq_none_iff.mp hnone).2 b hb
    unfold shipFault? at hship
    split at hship
    · simp at hship
    · exact ⟨_, by assumption⟩

variable (hr : p.Places r)
include hr

/-- The edges of entries are those for the branches that they wire. -/
theorem edges_of_wired {j : List Entry} (hj : ∀ e ∈ j, e ∈ p.journal p.schedule) :
    (j.filterMap p.edgeOf?).map some =
      (j.filterMap p.wiredOf?).map fun wire => r.edge? wire.1 wire.2 := by
  rw [List.map_filterMap, List.map_filterMap]
  refine List.filterMap_congr fun e he => ?_
  cases e with
  | made n => rfl
  | described n i ch => rfl
  | hosted n ch => rfl
  | wired n i b =>
    obtain ⟨hn, c, hc, hb⟩ := wired_mem_journal (hj _ he)
    obtain ⟨w, hw⟩ := exists_wire hfault hn hc hb
    obtain ⟨m, hm, hid⟩ := branch_entered (p.mem_ownNodes.mp hn).1 hc hb
    simp [edgeOf?, wiredOf?, hr.edge? hm hid, hw, Except.toOption]

/-- The entries for the leaving of a node have the edges that the node asks for. -/
theorem entries_edges {n : Node} (hn : .leave n ∈ p.schedule) :
    ((p.entries (.leave n)).filterMap p.edgeOf?).map some = p.askedBy r n := by
  have hentered : n ∈ p.entered := p.mem_entered.mpr (p.mem_schedule.mp hn)
  have hj : ∀ e ∈ p.entries (.leave n), e ∈ p.journal p.schedule :=
    fun e he => List.mem_flatMap.mpr ⟨_, hn, he⟩
  rw [edges_of_wired hfault hr hj, hr.entries_wired hentered, askedBy_eq]

/-- The edges of the journal are those that the nodes that are left ask for. -/
theorem journal_edges :
    ((p.journal p.schedule).filterMap p.edgeOf?).map some = p.left.flatMap (p.askedBy r) := by
  rw [edges_of_wired hfault hr fun _ he => he, hr.journal_wired, List.map_flatMap]
  exact List.flatMap_congr fun n _ => (p.askedBy_eq r n).symm

end

/-! ## Section 6: Nodes of the plan -/

theorem nodup_nodes (p : Plan) : p.nodes.toList.Nodup := by
  refine List.nodup_iff_getElem?_ne_getElem?.mpr fun i j hij hj heq => ?_
  rw [Array.getElem?_toList, Array.getElem?_toList] at heq
  have hj : j < p.nodes.size := by simpa using hj
  have hnj := Array.getElem?_eq_getElem hj
  have hi := p.consistent.index_of_node i _ (heq.trans hnj)
  have hj := p.consistent.index_of_node j _ hnj
  omega

/-- The nodes that are left are the nodes of the plan that have been reached, in another order. -/
theorem left_perm : p.left.Perm (p.nodes.toList.filter fun n => n ∈ p.entered) := by
  apply (List.perm_ext_iff_of_nodup p.nodup_left (p.nodup_nodes.filter _)).mpr
  intro n
  rw [p.mem_left, List.mem_filter, decide_eq_true_iff, p.mem_entered]
  refine ⟨fun h => ⟨?_, h⟩, fun h => h.2⟩
  exact Array.mem_toList_iff.mpr (Array.mem_of_getElem? h.1)

/-- Elements for which there is nothing may be left out. -/
theorem flatMap_filter_of_nil {α β : Type} {q : α → Bool} {f : α → List β} {l : List α}
    (h : ∀ a ∈ l, q a = false → f a = []) : (l.filter q).flatMap f = l.flatMap f := by
  induction l with
  | nil => rfl
  | cons a l ih =>
    have ih := ih fun b hb => h b (List.mem_cons_of_mem _ hb)
    cases hq : q a with
    | true => simp [hq, ih]
    | false => simp [hq, ih, h a (List.mem_cons_self ..) hq]

/-- Without a fault the edges of the answer are those that the plan asks for. -/
theorem edges_perm_answer (hfault : p.schedule.findSome? p.callbackFault? = none) (lead : Node) :
    ((p.answer policy job lead).graph.edges.map some).Perm
      (p.asked (p.answer policy job lead).report) := by
  have hr : p.Places (p.answer policy job lead).report := places_answer lead
  refine ((edges_perm_entries lead).map some).trans ?_
  rw [journal_edges hfault hr]
  refine (left_perm.flatMap_right _).trans (List.Perm.of_eq ?_)
  -- A node that has not been reached has no vertex and asks for nothing.
  apply flatMap_filter_of_nil
  intro n hn hentered
  unfold askedBy
  split
  · rename_i t hplacement
    have hown := ((hr.vertex_iff (p.node?_of_mem (Array.mem_toList_iff.mp hn)) t).mp hplacement).1
    exact absurd (p.mem_ownNodes.mp hown).1 (by simpa using hentered)
  · rfl

/-! ## Section 7: Exactly the wires that are asked for -/

/-- A compilation that succeeds makes exactly the wires that the plan asks for. A node with a vertex
has one slot for each of its inputs, and the slot counts the branches of the input. -/
theorem edges_exact {c : Compiler} {r : Compiler.Result} (h : c.compile job p = .ok r) :
    (r.graph.edges.map some).Perm (p.asked r.report) ∧
      ∀ n ∈ p.nodes, ∀ t, r.report.placement? n.id = some (.vertex t) →
        ∃ v, r.graph.vertex? t = some v ∧ v.config.inputs.keys = List.range n.inputs.length ∧
          ∀ i input, n.inputs[i]? = some input → (p.branchesOf input).length < UInt32.size →
            ∃ slot, v.config.inputs.get? i = some slot ∧
              slot.wires.toNat = (p.branchesOf input).length := by
  obtain ⟨lead, hfault, -, rfl⟩ := answer_of_ok h
  -- The wires are compared as a whole; the slots are looked up vertex by vertex.
  refine ⟨edges_perm_answer hfault lead, fun n hn t ht => ?_⟩
  have hnode := p.node?_of_mem hn
  obtain ⟨hown, rfl⟩ := ((places_answer lead).vertex_iff hnode t).mp ht
  refine ⟨p.sharedVertex c.policy lead n, vertex?_answer lead hown, ?_, ?_⟩
  · rw [config_sharedVertex]
    exact keys_fullLayout hown
  · intro i input hi hlt
    obtain ⟨ch, hch, -⟩ := p.exists_channel hnode (List.mem_of_getElem? hi)
    have hslot := inputs_fullLayout c.policy hown i
    rw [hi, Option.bind_some, hch, Option.map_some] at hslot
    refine ⟨slotOf c.policy p ch, ?_, ?_⟩
    · rw [config_sharedVertex]
      exact hslot
    · simp only [branchesOf, hch] at hlt ⊢
      -- The count of a slot wraps around, which is why it needs a bound.
      simpa [slotOf, InputSlot.describe] using Nat.mod_eq_of_lt hlt

/-- The plan that joins two sources has the wires that it asks for. -/
theorem wordCount_edges : ∃ r, Compiler.standard.compile .zero wordCount = .ok r ∧
    (r.graph.edges.map some).Perm (wordCount.asked r.report) := by
  obtain ⟨r, hr⟩ := wordCount_compiles .standard .zero
  exact ⟨r, hr, (edges_exact hr).1⟩

end Plan

end Dataflow
