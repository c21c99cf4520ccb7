import Mathlib.Data.List.Chain
import Dataflow.Proofs.Building
import Dataflow.Proofs.Eligibility

/-! # The path of the nodes of a thread

    The nodes that are fused into a vertex are appended in the order in which
    they are left. A node is left after its producer, and in a built plan no two
    nodes are fused with one producer, so this order is that of the records: the
    nodes form one path from the node of the vertex on.

    Main statement:
    - `isChain_guests`: the guests of a host are linked one after another
-/

namespace Dataflow

namespace Plan

open Lowering

/-! ## Section 1: Lists in which each element follows another -/

section Lists
variable {α : Type} {R : α → α → Prop}

/-- In a chain an element is the last one or is followed by another. -/
theorem last_or_next {a : α} {l : List α} (h : (a :: l).IsChain R) {x : α} (hx : x ∈ a :: l) :
    (a :: l).getLast? = some x ∨ ∃ y ∈ l, R x y := by
  induction l generalizing a with
  | nil =>
    obtain rfl : x = a := List.mem_singleton.mp hx
    exact Or.inl rfl
  | cons b l ih =>
    obtain ⟨hab, hrest⟩ := List.isChain_cons_cons.mp h
    rcases List.mem_cons.mp hx with rfl | hx
    · exact Or.inr ⟨b, List.mem_cons_self .., hab⟩
    · rcases ih hrest hx with hlast | ⟨y, hy, hxy⟩
      · exact Or.inl (by rw [List.getLast?_cons_cons, hlast])
      · exact Or.inr ⟨y, List.mem_cons_of_mem _ hy, hxy⟩

/-- If each element of a list follows one before it, and no two follow the same one, then the list is
a chain. -/
theorem isChain_of_predecessors {a : α} {l : List α} (hnodup : l.Nodup)
    (hpred : ∀ pre y post, l = pre ++ y :: post → ∃ x ∈ a :: pre, R x y)
    (hfun : ∀ x, ∀ y ∈ l, ∀ z ∈ l, R x y → R x z → y = z) : (a :: l).IsChain R := by
  induction l using List.reverseRecOn with
  | nil => exact List.isChain_singleton a
  | append_singleton l y ih =>
    have hsub : l ⊆ l ++ [y] := List.subset_append_left ..
    have hl : (a :: l).IsChain R := by
      refine ih (hnodup.sublist (List.sublist_append_left ..)) (fun pre z post heq => ?_) ?_
      · exact hpred pre z (post ++ [y]) (by simp [heq])
      · exact fun x z hz w hw => hfun x z (hsub hz) w (hsub hw)
    obtain ⟨x, hx, hxy⟩ := hpred l y [] rfl
    -- An element before the last one is followed by another already, which is not the new one.
    have hlast : (a :: l).getLast? = some x := by
      rcases last_or_next hl hx with hlast | ⟨z, hz, hxz⟩
      · exact hlast
      · have heq : y = z := hfun x y (by simp) z (hsub hz) hxy hxz
        exact absurd rfl ((List.nodup_append.mp hnodup).2.2 z hz y (by simp) ∘ heq.symm.trans)
    rw [← List.cons_append]
    refine List.isChain_append.mpr ⟨hl, List.isChain_singleton y, fun x' hx' y' hy' => ?_⟩
    obtain rfl : x' = x := by simpa [hlast] using hx'.symm
    obtain rfl : y' = y := by simpa using hy'.symm
    exact hxy

/-- Two chains from one element that have the same elements are equal, if no two elements follow the
same one. -/
theorem eq_of_perm_of_isChain {a : α} {l l' : List α} (hperm : l'.Perm l)
    (h : (a :: l).IsChain R) (h' : (a :: l').IsChain R)
    (hfun : ∀ x, ∀ y ∈ l, ∀ z ∈ l, R x y → R x z → y = z) : l' = l := by
  induction l generalizing a l' with
  | nil => exact hperm.eq_nil
  | cons y l ih =>
    cases l' with
    | nil => exact absurd hperm.symm.eq_nil (by simp)
    | cons z l' =>
      obtain ⟨hay, hrest⟩ := List.isChain_cons_cons.mp h
      obtain ⟨haz, hrest'⟩ := List.isChain_cons_cons.mp h'
      have hz : z ∈ y :: l := hperm.subset (List.mem_cons_self ..)
      obtain rfl : z = y := hfun a z hz y (List.mem_cons_self ..) haz hay
      rw [ih ((List.perm_cons z).mp hperm) hrest hrest' fun x y hy w hw =>
        hfun x y (List.mem_cons_of_mem _ hy) w (List.mem_cons_of_mem _ hw)]

end Lists

/-! ## Section 2: Links -/

/-- The only channel that starts at a node is the only input of another. -/
def Link (p : Plan) (m n : Node) : Prop :=
  ∃ c ch, m.outgoing = [c] ∧ n.inputs = [c] ∧ p.channel? c = some ch ∧ ch.source = m.id ∧
    ch.target = n.id ∧ ∀ d dh, p.channel? d = some dh → dh.source = m.id → d = c

variable {p : Plan}

/-- The one channel from a node is the one input of the node that it is linked to. -/
theorem Link.of_source {m n : Node} (h : p.Link m n) {d : ChannelId} {dh : Channel}
    (hdh : p.channel? d = some dh) (hsource : dh.source = m.id) :
    n.inputs = [d] ∧ dh.target = n.id := by
  obtain ⟨c, ch, -, hinputs, hch, -, htarget, hlisted⟩ := h
  obtain rfl := hlisted d dh hdh hsource
  obtain rfl : dh = ch := by simpa [hdh] using hch
  exact ⟨hinputs, htarget⟩

/-- A node has a link to one other node. -/
theorem Link.right_unique {m n n' : Node} (h : p.Link m n) (h' : p.Link m n')
    (hn : p.node? n.id = some n) (hn' : p.node? n'.id = some n') : n = n' := by
  obtain ⟨c, ch, -, -, hch, hsource, htarget, -⟩ := h
  obtain ⟨-, htarget'⟩ := h'.of_source hch hsource
  exact p.node?_inj hn hn' (htarget.symm.trans htarget')

/-- In a built plan a fused node is linked to its producer. -/
theorem link_of_fused (htied : p.Tied) {n : Node} (hn : p.node? n.id = some n) {c : ChannelId}
    {ch : Channel} {producer : Node} (hinputs : n.inputs = [c]) (hch : p.channel? c = some ch)
    (h : p.Fused n ch producer) : p.Link producer n := by
  have hsource := p.id_eq h.source
  -- The producer lists one channel, and it lists all that start at it.
  obtain ⟨d, hout⟩ := List.length_eq_one_iff.mp h.outgoing
  have hlisted : ∀ e eh, p.channel? e = some eh → eh.source = producer.id → e = d := by
    intro e eh heh hstart
    have hmem := htied.mem_outgoing heh (m := producer) (by rw [hstart, hsource]; exact h.source)
    simpa [hout] using hmem
  obtain rfl : c = d := hlisted c ch hch hsource.symm
  exact ⟨c, ch, hout, hinputs, hch, hsource.symm, h.target_eq hn, hlisted⟩

/-- In a built plan every fused node is linked to a node that is reached. -/
theorem exists_link (htied : p.Tied) (hfault : p.schedule.findSome? p.callbackFault? = none)
    {n : Node} (hn : n ∈ p.fusedNodes) : ∃ m ∈ p.entered, p.Link m n := by
  obtain ⟨c, ch, producer, hinputs, hch, h, hentered, -⟩ := exists_sole hfault hn
  exact ⟨producer, hentered, link_of_fused htied (p.node?_of_fused hn) hinputs hch h⟩

/-! ## Section 3: The order of guests -/

/-- The node that is left, if it is a guest of another. -/
def guest? (p : Plan) (id : NodeId) (cb : Callback) : Option Node :=
  cb.left?.filter fun n => p.fuses n && decide (p.host n.id = id)

theorem guests_eq (id : NodeId) :
    p.guests p.hostSequence id = p.schedule.filterMap (p.guest? id) := by
  rw [guests, hostSequence, left, List.filter_filter, List.filter_filterMap]
  congr 1
  funext cb
  simp only [guest?, Bool.and_comm]

theorem mem_guests {id : NodeId} {n : Node} :
    n ∈ p.guests p.hostSequence id ↔ n ∈ p.fusedNodes ∧ p.host n.id = id := by
  rw [guests, List.mem_filter, mem_hostSequence, mem_fusedNodes, decide_eq_true_iff]

theorem eq_leave_of_guest? {id : NodeId} {cb : Callback} {n : Node} (h : p.guest? id cb = some n) :
    cb = .leave n := by
  cases cb with
  | enter m => simp [guest?, Callback.left?] at h
  | leave m =>
    obtain ⟨hm, -⟩ := Option.filter_eq_some_iff.mp h
    rw [Option.some.inj (show some m = some n from hm)]

/-- A guest comes after its producer, if this is a guest too. -/
theorem producer_before {id : NodeId} {pre post : List Node} {n producer : Node} {c : ChannelId}
    {ch : Channel} (hsplit : p.guests p.hostSequence id = pre ++ n :: post) (hc : c ∈ n.inputs)
    (hch : p.channel? c = some ch) (hsource : p.node? ch.source = some producer)
    (hproducer : producer ∈ p.guests p.hostSequence id) : producer ∈ pre := by
  rw [guests_eq] at hsplit
  obtain ⟨before, rest, hschedule, rfl, hrest⟩ := List.filterMap_eq_append_iff.mp hsplit
  obtain ⟨skipped, cb, after, rfl, hskipped, hcb, -⟩ := List.filterMap_eq_cons_iff.mp hrest
  obtain rfl := eq_leave_of_guest? hcb
  -- Before the node was left, everything below its input was done.
  have hturn : p.schedule = (before ++ skipped) ++ .leave n :: after := by
    rw [hschedule, List.append_assoc]
  have hready := (p.ready_of_schedule hturn).2
  obtain ⟨hfused, hhost⟩ := mem_guests.mp hproducer
  obtain ⟨hentered, hf⟩ := p.mem_fusedNodes.mp hfused
  have hleft : .leave producer ∈ p.callbacksOf c := by
    rw [p.callbacksOf_eq hch]
    exact p.leave_mem_callbacks hsource (p.mem_entered.mp hentered).2.1
  have hguest : p.guest? id (.leave producer) = some producer := by
    simp [guest?, Callback.left?, hf, hhost]
  rcases List.mem_append.mp (hready.2 c hc hleft) with hbefore | hbefore
  · exact List.mem_filterMap.mpr ⟨_, hbefore, hguest⟩
  · simp [hskipped _ hbefore] at hguest

/-- A node is linked to one guest of a host at most. -/
theorem link_guests (id : NodeId) : ∀ m, ∀ n ∈ p.guests p.hostSequence id,
    ∀ n' ∈ p.guests p.hostSequence id, p.Link m n → p.Link m n' → n = n' := by
  have hnode : ∀ n ∈ p.guests p.hostSequence id, p.node? n.id = some n := fun n hn =>
    p.node?_of_fused (mem_guests.mp hn).1
  exact fun m n hn n' hn' h h' => h.right_unique h' (hnode n hn) (hnode n' hn')

section
variable (htied : p.Tied) (hfault : p.schedule.findSome? p.callbackFault? = none)
include htied hfault

/-- A guest is linked to the node of its host or to a guest before it. -/
theorem exists_link_before {g : Node} (hg : g ∈ p.ownNodes) {pre post : List Node} {n : Node}
    (hsplit : p.guests p.hostSequence g.id = pre ++ n :: post) : ∃ m ∈ g :: pre, p.Link m n := by
  obtain ⟨hfused, hhost⟩ := mem_guests.mp (show n ∈ _ by rw [hsplit]; simp)
  obtain ⟨c, ch, producer, hinputs, hch, h, hentered, hid⟩ := exists_sole hfault hfused
  obtain ⟨hnode, -⟩ := p.mem_entered.mp (p.mem_fusedNodes.mp hfused).1
  refine ⟨producer, ?_, link_of_fused htied hnode hinputs hch h⟩
  have hproducer : p.host producer.id = g.id := by rw [hid, ← h.host_eq hnode, hhost]
  cases hf : p.fuses producer with
  | false =>
    rw [p.host_of_not_fuses (p.mem_entered.mp hentered).1 hf] at hproducer
    rw [p.eq_of_entered hentered (p.mem_ownNodes.mp hg).1 hproducer]
    exact List.mem_cons_self ..
  | true =>
    have hguest := mem_guests.mpr ⟨p.mem_fusedNodes.mpr ⟨hentered, hf⟩, hproducer⟩
    exact List.mem_cons_of_mem _ (producer_before hsplit (by simp [hinputs]) hch h.source hguest)

/-- The guests of a host are linked one after another, and the first one to the node of the host. -/
theorem isChain_guests {g : Node} (hg : g ∈ p.ownNodes) :
    (g :: p.guests p.hostSequence g.id).IsChain p.Link := by
  refine isChain_of_predecessors (p.nodup_hostSequence.filter _) ?_ (link_guests g.id)
  exact fun pre n post hsplit => exists_link_before htied hfault hg hsplit

end

end Plan

end Dataflow
