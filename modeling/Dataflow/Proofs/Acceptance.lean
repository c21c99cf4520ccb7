import Mathlib.Algebra.Order.BigOperators.Group.Finset
import Dataflow.Proofs.Cycles

/-! # Acceptance

    Parts make a plan exactly if their handles agree with the arenas and there
    is no cycle, and the plan has these parts.

    The checks that decide this go by positions, and parts may name any
    position. So they are written down once more as a machine runs them: every
    look-up may miss, the search for a cycle keeps a slot number instead of the
    inputs that are left, and its steps are counted. On all parts this gives the
    same answer, with no look-up that misses and no search that takes more steps
    than there are nodes and listed inputs.

    Main statements:
    - `strictInconsistency_eq`: the check of the handles misses nothing
    - `strictFollow_eq`: a search from a stack takes no more steps than are left
    - `ofParts_decides`: which parts are accepted, and that this is found out
-/

namespace Dataflow

namespace Plan

namespace Parts

/-! ## Section 1: The checks with look-ups that may miss -/

/-- The fault that is found first; what comes after a fault is not looked at. -/
def thenStrict (first second : Option (Option Fault)) : Option (Option Fault) :=
  match first with
  | some none => second
  | answer => answer

theorem thenStrict_some (first second : Option Fault) :
    thenStrict (some first) (some second) = some (first.or second) := by
  cases first <;> rfl

/-- The fault of a listed channel one of whose ends is to be a node. There is no answer if the channel
is not there. -/
def strictEnd (q : Parts) (id : NodeId) (endOf : Channel → NodeId) (fault : ChannelId → NodeId → Fault)
    (c : ChannelId) : Option (Option Fault) := do
  let ch ← q.channels[c.index]?
  return if endOf ch = id then none else some (fault c id)

/-- The first fault of the node at a position. -/
def strictNodeFault (q : Parts) (n : Node) (position : Nat) : Option (Option Fault) :=
  if n.id.index ≠ position then some (some (.misplacedNode n.id position))
  else match (n.inputs ++ n.outgoing).find? fun c => q.channels.size ≤ c.index with
    | some c => some (some (.unknownReference n.id c))
    | none =>
      thenStrict (n.inputs.findSomeM? (q.strictEnd n.id (·.target) .strayInput))
        (n.outgoing.findSomeM? (q.strictEnd n.id (·.source) .strayOutgoing))

/-- The first fault of the handles. The ends of channels and the sinks are only compared with the
number of nodes. -/
def strictInconsistency (q : Parts) : Option (Option Fault) :=
  thenStrict (q.nodes.toList.zipIdx.findSomeM? fun entry => q.strictNodeFault entry.1 entry.2) <|
    some <| (q.channels.toList.zipIdx.findSome? fun entry => q.channelFault? entry.1 entry.2).or <|
      q.sinks.findSome? fun s => if s.index < q.nodes.size then none else some (.unknownSink s)

/-- A node whose inputs are being followed, and the slot of the input to be followed next. -/
structure Cursor where
  /-- The position of the node. -/
  node : Nat
  /-- The slot. -/
  slot : Nat

/-- Follows the inputs on a stack for at most `fuel` steps. There is no answer if these do not
suffice, or if a node, a channel or a mark is looked up that is not there. -/
def strictFollow (q : Parts) : (fuel : Nat) → Array Mark → List Cursor →
    Option (Except NodeId (Array Mark))
  | _, marks, [] => some (.ok marks)
  | 0, _, _ :: _ => none
  | fuel + 1, marks, ⟨i, slot⟩ :: stack => do
    let node ← q.nodes[i]?
    match node.inputs[slot]? with
    | none =>
      if i < marks.size then q.strictFollow fuel (marks.setIfInBounds i .done) stack else none
    | some c =>
      let ch ← q.channels[c.index]?
      let producer := ch.source.index
      match ← marks[producer]? with
      | .active => return .error (← q.nodes[producer]?).id
      | .fresh =>
        q.strictFollow fuel (marks.setIfInBounds producer .active)
          (⟨producer, 0⟩ :: ⟨i, slot + 1⟩ :: stack)
      | .done => q.strictFollow fuel marks (⟨i, slot + 1⟩ :: stack)

/-- Follows the inputs of every node in a list that has not been reached yet, for at most `fuel`
steps each. -/
def strictFollowAll (q : Parts) (fuel : Nat) (marks : Array Mark) :
    List Nat → Option (Except NodeId Unit)
  | [] => some (.ok ())
  | start :: rest => do
    if (← marks[start]?) = .fresh then
      match ← q.strictFollow fuel (marks.setIfInBounds start .active) [⟨start, 0⟩] with
      | .error n => return .error n
      | .ok marks => q.strictFollowAll fuel marks rest
    else q.strictFollowAll fuel marks rest

/-- What is found out about parts with at most `fuel` steps for each search. -/
def strictAdmission (q : Parts) (fuel : Nat) : Option (Except Fault Unit) := do
  match ← q.strictInconsistency with
  | some fault => return .error fault
  | none =>
    let marks := Array.replicate q.nodes.size .fresh
    return (← q.strictFollowAll fuel marks (List.range q.nodes.size)).mapError .cycle

/-! ## Section 2: The check of the handles misses nothing -/

theorem findSomeM?_eq_some {α β : Type} {f : α → Option (Option β)} {g : α → Option β} {l : List α}
    (h : ∀ a ∈ l, f a = some (g a)) : l.findSomeM? f = some (l.findSome? g) := by
  induction l with
  | nil => rfl
  | cons a l ih =>
    have hrest := ih fun b hb => h b (List.mem_cons_of_mem _ hb)
    rw [List.findSomeM?, h a (List.mem_cons_self ..), List.findSome?_cons]
    cases g a with
    | none => exact hrest
    | some b => rfl

theorem findSome?_ite {α β : Type} (p : α → Prop) [DecidablePred p] (fault : α → β) (l : List α) :
    (l.findSome? fun a => if p a then none else some (fault a)) =
      (l.find? fun a => ¬ p a).map fault := by
  induction l with
  | nil => rfl
  | cons a l ih =>
    rw [List.findSome?_cons, List.find?_cons, ih]
    by_cases h : p a <;> simp [h]

/-- A channel that is there is looked up. -/
theorem strictEnd_eq (q : Parts) (id : NodeId) (endOf : Channel → NodeId)
    (fault : ChannelId → NodeId → Fault) {c : ChannelId} (h : c.index < q.channels.size) :
    q.strictEnd id endOf fault c =
      some (if (q.channel? c).map endOf = some id then none else some (fault c id)) := by
  simp [strictEnd, channel?, h]

/-- The channels of a node are looked up when it is known that they are there. -/
theorem strictNodeFault_eq (q : Parts) (n : Node) (position : Nat) :
    q.strictNodeFault n position = some (q.nodeFault? n position) := by
  unfold strictNodeFault nodeFault?
  by_cases hid : n.id.index ≠ position
  · rw [if_pos hid, if_pos hid]
  have hthere : ∀ c : ChannelId, (decide ¬ (q.channel? c).isSome = true) =
      decide (q.channels.size ≤ c.index) := by
    intro c
    simp [channel?]
  rw [if_neg hid, if_neg hid, findSome?_ite]
  simp only [hthere]
  cases hmissing : (n.inputs ++ n.outgoing).find? fun c => q.channels.size ≤ c.index with
  | some c => rfl
  | none =>
    have hlt : ∀ c ∈ n.inputs ++ n.outgoing, c.index < q.channels.size := by
      intro c hc
      simpa using List.find?_eq_none.mp hmissing c hc
    have hinputs := findSomeM?_eq_some fun c hc =>
      q.strictEnd_eq n.id (·.target) .strayInput (hlt c (List.mem_append_left _ hc))
    have houtgoing := findSomeM?_eq_some fun c hc =>
      q.strictEnd_eq n.id (·.source) .strayOutgoing (hlt c (List.mem_append_right _ hc))
    show thenStrict _ _ = some ((none : Option Fault).or _)
    rw [hinputs, houtgoing, thenStrict_some, Option.none_or]

/-- The check of the handles misses nothing, whatever the parts are. -/
theorem strictInconsistency_eq (q : Parts) : q.strictInconsistency = some q.inconsistency? := by
  have hnodes := findSomeM?_eq_some (l := q.nodes.toList.zipIdx)
    fun entry _ => q.strictNodeFault_eq entry.1 entry.2
  rw [strictInconsistency, hnodes, thenStrict_some, inconsistency?]

variable {q : Parts}

/-! ## Section 3: The steps that are left -/

/-- The steps for one node: its inputs are followed, and it is finished. -/
def nodeSteps (q : Parts) (i : Nat) : Nat := (q.inputsOf ⟨i⟩).length + 1

/-- The steps for all nodes. -/
def searchSteps (q : Parts) : Nat := ∑ i ∈ Finset.range q.nodes.size, q.nodeSteps i

/-- The steps for the nodes that have not been reached. -/
def freshSteps (q : Parts) (marks : Array Mark) : Nat :=
  ∑ i ∈ Finset.range q.nodes.size, if marks[i]? = some .fresh then q.nodeSteps i else 0

theorem freshSteps_le (q : Parts) (marks : Array Mark) : q.freshSteps marks ≤ q.searchSteps := by
  apply Finset.sum_le_sum
  intro i _
  split
  · exact Nat.le_refl _
  · exact Nat.zero_le _

theorem freshSteps_set_le (q : Parts) (marks : Array Mark) (i : Nat) {m : Mark} (h : m ≠ .fresh) :
    q.freshSteps (marks.setIfInBounds i m) ≤ q.freshSteps marks := by
  apply Finset.sum_le_sum
  intro j _
  by_cases hj : (marks.setIfInBounds i m)[j]? = some .fresh
  · have hold : marks[j]? = some .fresh := by
      rcases getElem?_set_eq_some hj with ⟨-, hm⟩ | ⟨-, hold⟩
      · exact absurd hm h
      · exact hold
    rw [if_pos hj, if_pos hold]
  · rw [if_neg hj]
    exact Nat.zero_le _

/-- The steps for a node are taken from those that are left when it is reached. -/
theorem freshSteps_set {marks : Array Mark} {i : Nat} (hi : i < q.nodes.size)
    (hfresh : marks[i]? = some .fresh) :
    q.nodeSteps i + q.freshSteps (marks.setIfInBounds i .active) = q.freshSteps marks := by
  have hmem : i ∈ Finset.range q.nodes.size := Finset.mem_range.mpr hi
  have hlt := (Array.getElem?_eq_some_iff.mp hfresh).1
  have hrest : ∀ j ∈ (Finset.range q.nodes.size).erase i,
      (if (marks.setIfInBounds i .active)[j]? = some .fresh then q.nodeSteps j else 0) =
        if marks[j]? = some .fresh then q.nodeSteps j else 0 := by
    intro j hj
    rw [Array.getElem?_setIfInBounds_ne (Finset.ne_of_mem_erase hj).symm]
  unfold freshSteps
  rw [← Finset.add_sum_erase _ _ hmem, ← Finset.add_sum_erase _ _ hmem, Finset.sum_congr rfl hrest,
    if_pos hfresh]
  simp [hlt]

/-! ## Section 4: The search takes no more steps than are left -/

/-- A cursor stands where a frame does. -/
structure Cursor.At (q : Parts) (cursor : Cursor) (f : Frame) : Prop where
  /-- It is for the frame's node. -/
  node : f.node = ⟨cursor.node⟩
  /-- The node exists. -/
  lt : cursor.node < q.nodes.size
  /-- The inputs from the cursor's slot on are still to be followed. -/
  pending : f.pending = (q.inputsOf f.node).drop cursor.slot

/-- The node of a cursor is there, and what is in its slot is the first that is pending. -/
theorem Cursor.At.lookup {cursor : Cursor} {f : Frame} (h : cursor.At q f) :
    ∃ node, q.nodes[cursor.node]? = some node ∧ node.inputs[cursor.slot]? = f.pending.head? := by
  have hnode := Array.getElem?_eq_getElem h.lt
  refine ⟨_, hnode, ?_⟩
  rw [h.pending, List.head?_drop, h.node, inputsOf, node?, hnode]

theorem Cursor.At.next {cursor : Cursor} {n : NodeId} {c : ChannelId} {rest : List ChannelId}
    (h : cursor.At q ⟨n, c :: rest⟩) : Cursor.At q ⟨cursor.node, cursor.slot + 1⟩ ⟨n, rest⟩ where
  node := h.node
  lt := h.lt
  pending := by
    have htail := congrArg List.tail h.pending
    rw [List.tail_drop] at htail
    exact htail

/-- The channel that is to be followed next is there, and so is its source. -/
theorem Cursor.At.source (hq : q.Consistent) {cursor : Cursor} {n : NodeId} {c : ChannelId}
    {rest : List ChannelId} (h : cursor.At q ⟨n, c :: rest⟩) :
    ∃ producer, q.source? c = some producer ∧ producer.index < q.nodes.size := by
  obtain ⟨node, hnode, hslot⟩ := h.lookup
  obtain ⟨ch, hch, -⟩ := hq.input_target node (Array.mem_of_getElem? hnode) c
    (List.mem_of_getElem? hslot)
  refine ⟨ch.source, ?_, hq.source_lt ch (Array.mem_of_getElem? hch)⟩
  rw [source?, hch, Option.map_some]

theorem size_of_follow {marks marks' : Array Mark} {finished finished' : List NodeId}
    {stack : List Frame} (h : q.follow marks finished stack = .ok (marks', finished')) :
    marks'.size = marks.size := by
  fun_induction follow q marks finished stack with
  | case1 marks finished =>
    injection h with h
    rw [(Prod.mk.inj h).1]
  | case2 marks finished n stack ih => simpa using ih h
  | case3 marks finished n c rest stack hsource ih => exact ih h
  | case4 => simp at h
  | case5 marks finished n c rest stack producer hsource hmark ih => simpa using ih h
  | case6 marks finished n c rest stack producer hsource hmark ih => exact ih h
  | case7 marks finished n c rest stack producer hsource hmark ih => exact ih h

/-- A frame on top takes one step at least. -/
theorem exists_fuel {f : Frame} {stack : List Frame} {k fuel : Nat}
    (h : stackWork (f :: stack) + k ≤ fuel) :
    ∃ left, fuel = left + 1 ∧ f.pending.length + stackWork stack + k ≤ left := by
  have hwork : stackWork (f :: stack) = f.pending.length + 1 + stackWork stack := rfl
  exact ⟨fuel - 1, by omega, by omega⟩

/-- With nothing pending on top the node is finished. -/
theorem Cursor.At.finish {cursor : Cursor} {n : NodeId} (h : cursor.At q ⟨n, []⟩) (fuel : Nat)
    {marks : Array Mark} (hsize : marks.size = q.nodes.size) (cursors : List Cursor) :
    q.strictFollow (fuel + 1) marks (cursor :: cursors) =
      q.strictFollow fuel (marks.setIfInBounds n.index .done) cursors := by
  obtain ⟨node, hnode, hslot⟩ := h.lookup
  have hn : n.index = cursor.node := congrArg Handle.index h.node
  simp only [strictFollow, hnode, hslot, List.head?_nil, if_pos (hsize ▸ h.lt), hn,
    Option.bind_eq_bind, Option.bind_some]

/-- With an input pending on top the mark of its source says what comes next. -/
theorem Cursor.At.follow {cursor : Cursor} {n producer : NodeId} {c : ChannelId}
    {rest : List ChannelId} (h : cursor.At q ⟨n, c :: rest⟩) (hsource : q.source? c = some producer)
    (fuel : Nat) {marks : Array Mark} {m : Mark} (hm : marks[producer.index]? = some m)
    (cursors : List Cursor) : q.strictFollow (fuel + 1) marks (cursor :: cursors) =
      match m with
      | .active => q.nodes[producer.index]?.map fun node => .error node.id
      | .fresh => q.strictFollow fuel (marks.setIfInBounds producer.index .active)
          (⟨producer.index, 0⟩ :: ⟨cursor.node, cursor.slot + 1⟩ :: cursors)
      | .done => q.strictFollow fuel marks (⟨cursor.node, cursor.slot + 1⟩ :: cursors) := by
  obtain ⟨node, hnode, hslot⟩ := h.lookup
  obtain ⟨ch, hch, rfl⟩ := Option.map_eq_some_iff.mp hsource
  rw [channel?] at hch
  simp only [strictFollow, hnode, hslot, List.head?_cons, hch, hm, Option.bind_eq_bind,
    Option.bind_some]
  cases m with
  | active => cases q.nodes[ch.source.index]? <;> rfl
  | fresh => rfl
  | done => rfl

/-- A search from a stack takes no more steps than are left, and it misses nothing. -/
theorem strictFollow_eq (hq : q.Consistent) {marks : Array Mark} {finished : List NodeId}
    {stack : List Frame} {cursors : List Cursor} {fuel : Nat} (hsize : marks.size = q.nodes.size)
    (hat : List.Forall₂ (Cursor.At q) cursors stack)
    (hfuel : stackWork stack + q.freshSteps marks ≤ fuel) :
    q.strictFollow fuel marks cursors = some ((q.follow marks finished stack).map Prod.fst) := by
  fun_induction follow q marks finished stack generalizing cursors fuel with
  | case1 marks finished =>
    cases hat
    cases fuel <;> rfl
  | case2 marks finished n stack ih =>
    obtain _ | ⟨hcursor, hrest⟩ := hat
    obtain ⟨fuel, rfl, hleft⟩ := exists_fuel hfuel
    have hless := q.freshSteps_set_le marks n.index (m := .done) (by simp)
    rw [hcursor.finish fuel hsize]
    exact ih (by simpa using hsize) hrest (by omega)
  | case3 marks finished n c rest stack hsource ih =>
    obtain _ | ⟨hcursor, hrest⟩ := hat
    obtain ⟨producer, hthere, -⟩ := hcursor.source hq
    rw [hsource] at hthere
    contradiction
  | case4 marks finished n c rest stack producer hsource hmark =>
    obtain _ | ⟨hcursor, hrest⟩ := hat
    obtain ⟨fuel, rfl, -⟩ := exists_fuel hfuel
    have hlt := (Array.getElem?_eq_some_iff.mp hmark).1
    have hnode := Array.getElem?_eq_getElem (hsize ▸ hlt)
    have hid : q.nodes[producer.index].id = producer :=
      eq_of_index_eq (hq.index_of_node _ _ hnode)
    rw [hcursor.follow hsource fuel hmark, hnode]
    exact congrArg (fun n => some (Except.error n)) hid
  | case5 marks finished n c rest stack producer hsource hmark ih =>
    obtain _ | ⟨hcursor, hrest⟩ := hat
    obtain ⟨fuel, rfl, hleft⟩ := exists_fuel hfuel
    have hlt : producer.index < q.nodes.size := hsize ▸ (Array.getElem?_eq_some_iff.mp hmark).1
    have hsteps : (q.inputsOf producer).length + 1 +
      q.freshSteps (marks.setIfInBounds producer.index .active) = _ := freshSteps_set hlt hmark
    rw [hcursor.follow hsource fuel hmark]
    apply ih (by simpa using hsize) (.cons ⟨rfl, hlt, rfl⟩ (.cons hcursor.next hrest))
    -- The steps for the producer are on the stack now, and no longer among those for fresh nodes.
    have hwork : stackWork (⟨producer, q.inputsOf producer⟩ :: ⟨n, rest⟩ :: stack) =
      (q.inputsOf producer).length + 1 + (rest.length + 1 + stackWork stack) := rfl
    rw [List.length_cons] at hleft
    omega
  | case6 marks finished n c rest stack producer hsource hmark ih =>
    obtain _ | ⟨hcursor, hrest⟩ := hat
    obtain ⟨fuel, rfl, hleft⟩ := exists_fuel hfuel
    rw [hcursor.follow hsource fuel hmark]
    have hwork : stackWork (⟨n, rest⟩ :: stack) = rest.length + 1 + stackWork stack := rfl
    rw [List.length_cons] at hleft
    exact ih hsize (.cons hcursor.next hrest) (by omega)
  | case7 marks finished n c rest stack producer hsource hmark ih =>
    obtain _ | ⟨hcursor, hrest⟩ := hat
    obtain ⟨m, hthere, hlt⟩ := hcursor.source hq
    obtain rfl : producer = m := Option.some.inj (hsource.symm.trans hthere)
    rw [← hsize] at hlt
    exact absurd hmark (by simp [hlt])

/-- The searches from all nodes find out what they do, none in more steps than there are. -/
theorem strictFollowAll_eq (hq : q.Consistent) {marks : Array Mark} {starts : List Nat}
    (finished : List NodeId) (hsize : marks.size = q.nodes.size)
    (hstarts : ∀ i ∈ starts, i < q.nodes.size) :
    q.strictFollowAll q.searchSteps marks starts =
      some ((q.followAll marks finished (starts.map Handle.mk)).map fun _ => ()) := by
  induction starts generalizing marks finished with
  | nil => rfl
  | cons start rest ih =>
    have hlt := hstarts start (List.mem_cons_self ..)
    have hrest := fun i hi => hstarts i (List.mem_cons_of_mem _ hi)
    have hmark := Array.getElem?_eq_getElem (hsize ▸ hlt)
    rw [strictFollowAll, List.map_cons, followAll, hmark]
    by_cases hfresh : marks[start] = .fresh
    · rw [hfresh] at hmark ⊢
      have hsteps := freshSteps_set hlt hmark
      have hfuel : stackWork [⟨⟨start⟩, q.inputsOf ⟨start⟩⟩] +
          q.freshSteps (marks.setIfInBounds start .active) ≤ q.searchSteps :=
        Nat.le_trans (Nat.le_of_eq hsteps) (q.freshSteps_le marks)
      have hfollow : q.strictFollow q.searchSteps _ [⟨start, 0⟩] =
          some ((q.follow _ finished [⟨⟨start⟩, q.inputsOf ⟨start⟩⟩]).map Prod.fst) :=
        strictFollow_eq hq (by simpa using hsize) (.cons ⟨rfl, hlt, rfl⟩ .nil) hfuel
      simp only [Option.bind_eq_bind, Option.bind_some, if_true, hfollow]
      cases hresult : q.follow (marks.setIfInBounds start .active) finished
          [⟨⟨start⟩, q.inputsOf ⟨start⟩⟩] with
      | error n => rfl
      | ok found =>
        have hsize' := (size_of_follow hresult).trans (by simpa using hsize)
        exact ih found.2 hsize' hrest
    · simp only [Option.bind_eq_bind, Option.bind_some, hfresh, if_false, Option.some.injEq]
      exact ih finished hsize hrest

/-- The fault that is found is one of the handles, or else a cycle. -/
theorem map_ofParts (q : Parts) : (ofParts q).map (fun _ => ()) =
    match q.inconsistency? with
    | some fault => .error fault
    | none => (q.listing.map fun _ => ()).mapError .cycle := by
  unfold ofParts
  split
  · rename_i fault hfault
    simp only [hfault]
    rfl
  · rename_i hnone
    simp only [hnone]
    split
    · rename_i n hlisting
      simp only [hlisting]
      rfl
    · rename_i l hlisting
      simp only [hlisting]
      rfl

/-- What is found out in as many steps as there are is what the checks say. -/
theorem strictAdmission_eq (q : Parts) :
    q.strictAdmission q.searchSteps = some ((ofParts q).map fun _ => ()) := by
  rw [strictAdmission, strictInconsistency_eq, map_ofParts]
  cases hfault : q.inconsistency? with
  | some fault => rfl
  | none =>
    have hsearch : q.strictFollowAll q.searchSteps (Array.replicate q.nodes.size .fresh)
        (List.range q.nodes.size) = some (q.listing.map fun _ => ()) :=
      strictFollowAll_eq (q.inconsistency?_eq_none_iff.mp hfault) [] Array.size_replicate
        fun i hi => List.mem_range.mp hi
    show Option.bind (q.strictFollowAll _ _ _) _ = _
    rw [hsearch]
    rfl

end Parts

/-- Parts are accepted exactly if their handles agree with the arenas and there is no cycle. What is
accepted has these parts. And this is found out: nothing is looked up that is not there, and a search
for a cycle ends after as many steps as there are nodes and listed inputs. -/
theorem ofParts_decides (q : Parts) :
    ((∃ p, ofParts q = .ok p) ↔ q.Consistent ∧ ¬ q.Cyclic) ∧
      (∀ p, ofParts q = .ok p ↔ p.toParts = q) ∧
      q.strictAdmission q.searchSteps = some ((ofParts q).map fun _ => ()) := by
  refine ⟨⟨?_, ?_⟩, fun p => ⟨toParts_of_ofParts, ?_⟩, q.strictAdmission_eq⟩
  · rintro ⟨p, hp⟩
    obtain rfl := toParts_of_ofParts hp
    exact ⟨p.consistent, p.consistent.acyclic_iff.mp p.acyclic⟩
  · rintro ⟨hq, hcyclic⟩
    obtain ⟨p, hp, -⟩ := exists_plan hq (hq.acyclic_iff.mpr hcyclic)
    exact ⟨p, hp⟩
  · rintro rfl
    obtain ⟨l, hl⟩ := Parts.exists_listing p.acyclic
    exact ofParts_toParts p hl

end Plan

end Dataflow
