import Dataflow.Proofs.Building

/-! # Routes through unions

    The branches of an input are found with a stack. This is written down once
    more as a machine runs it: the inputs of a union are pushed last first, every
    look-up may fail, and the steps are counted. It gives the recursion over
    unions, in as many steps as the plan gives.

    A route from a channel to one of its branches says at each union on it
    which slot it takes. There is a branch for every route, in the order of the
    slots, so that a branch to which several routes lead is listed once for each.

    Main statements:
    - `strictBranchesFrom_eq`: the machine lists the branches of what is on its
      stack
    - `exists_routes`: the branches are the ends of the routes
    - `branches_flatten`: what the branches of an input are
-/

namespace Dataflow

namespace Plan

-- The empty sum is the zero of the core library, whatever else is imported.
attribute [local instance (high)] Zero.ofOfNat0

/-! ## Section 1: The listing with look-ups that may fail -/

namespace Parts

/-- A stack with one more channel, if it is there. -/
def push (q : Parts) (stack : List Channel) (c : ChannelId) : Except Fault (List Channel) := do
  return (← q.channel c) :: stack

/-- The branches found so far and those of the channels on a stack, for at most `fuel` steps. There is
no answer if these do not suffice. -/
def strictBranchesFrom (q : Parts) :
    (fuel : Nat) → (found stack : List Channel) → Option (Except Fault (List Channel))
  | _, found, [] => some (.ok found)
  | 0, _, _ :: _ => none
  | fuel + 1, found, ch :: stack =>
    match q.node ch.source with
    | .error fault => some (.error fault)
    | .ok source =>
      if source.isUnion then
        match source.inputs.reverse.foldlM q.push stack with
        | .error fault => some (.error fault)
        | .ok stack => q.strictBranchesFrom fuel found stack
      else q.strictBranchesFrom fuel (found ++ [ch]) stack

/-- The branches of a channel, for at most `fuel` steps. -/
def strictBranches (q : Parts) (fuel : Nat) (ch : Channel) : Option (Except Fault (List Channel)) :=
  q.strictBranchesFrom fuel [] [ch]

end Parts

variable {p : Plan}

/-- Inputs that are pushed last first stand on the stack in slot order. -/
theorem foldlM_push {inputs : List ChannelId} {channels : List Channel}
    (h : inputs.mapM p.channel = .ok channels) (stack : List Channel) :
    inputs.reverse.foldlM p.push stack = .ok (channels ++ stack) := by
  rw [List.foldlM_reverse]
  induction inputs generalizing channels with
  | nil =>
    obtain rfl : [] = channels := Except.ok.inj h
    rfl
  | cons c rest ih =>
    rw [List.mapM_cons] at h
    rw [List.foldrM_cons]
    cases hc : p.channel c with
    | error fault =>
      rw [hc] at h
      cases h
    | ok ch =>
      rw [hc] at h
      cases hrest : rest.mapM p.channel with
      | error fault =>
        rw [hrest] at h
        cases h
      | ok others =>
        rw [hrest] at h
        obtain rfl : ch :: others = channels := Except.ok.inj h
        rw [ih hrest]
        show p.push (others ++ stack) c = _
        rw [Parts.push, hc]
        rfl

/-- The machine lists the branches of what is on its stack, in no more steps than are left. -/
theorem strictBranchesFrom_eq {stack : List Channel} {fuel : Nat}
    (hstack : ∀ ch ∈ stack, ∃ n, p.node? ch.source = some n)
    (hfuel : (stack.map fun ch => 1 + p.work ch.source).sum ≤ fuel) (found : List Channel) :
    p.strictBranchesFrom fuel found stack = some (.ok (found ++ stack.flatMap p.flat)) := by
  induction fuel generalizing found stack with
  | zero =>
    cases stack with
    | nil => simp [Parts.strictBranchesFrom]
    | cons ch stack => simp at hfuel
  | succ fuel ih =>
    cases stack with
    | nil => simp [Parts.strictBranchesFrom]
    | cons ch stack =>
      obtain ⟨n, hn⟩ := hstack ch (List.mem_cons_self ..)
      have hrest := fun d hd => hstack d (List.mem_cons_of_mem _ hd)
      have hnode : p.node ch.source = .ok n := by simp [Parts.node, hn]
      have hwork := p.work_eq hn
      rw [List.map_cons, List.sum_cons] at hfuel
      simp only [Parts.strictBranchesFrom, hnode, List.flatMap_cons]
      cases hu : n.isUnion with
      | false =>
        rw [if_neg (by simp), ih hrest (by omega), p.flat_of_not_union hn hu, List.append_assoc]
      | true =>
        obtain ⟨channels, hchannels, hmem, hflat⟩ := p.mapM_channel_ok (p.exists_channels hn)
        have hsum := p.sum_work_of_mapM hchannels
        rw [if_pos rfl, foldlM_push hchannels]
        have hstack' : ∀ d ∈ channels ++ stack, ∃ n, p.node? d.source = some n := by
          intro d hd
          rcases List.mem_append.mp hd with hd | hd
          · obtain ⟨c, -, hc⟩ := hmem d hd
            exact p.exists_source hc
          · exact hrest d hd
        show p.strictBranchesFrom fuel found (channels ++ stack) = _
        rw [ih hstack' (by rw [List.map_append, List.sum_append, hsum]; omega), List.flatMap_append,
          hflat, p.flat_of_union hn hu]

/-! ## Section 2: Routes -/

/-- A route from a channel to one of its branches, by the slots that it takes at the unions on it. -/
inductive Route (p : Plan) : Channel → List Nat → Channel → Prop where
  /-- A channel that does not start at a union is its own branch. -/
  | own {ch : Channel} {n : Node} (hn : p.node? ch.source = some n) (hu : n.isUnion = false) :
    Route p ch [] ch
  /-- A channel that starts at a union has the branches of every slot of the union. -/
  | union {ch d b : Channel} {n : Node} {slot : Nat} {c : ChannelId} {route : List Nat}
    (hn : p.node? ch.source = some n) (hu : n.isUnion = true) (hslot : n.inputs[slot]? = some c)
    (hd : p.channel? c = some d) (h : Route p d route b) : Route p ch (slot :: route) b

/-- The routes from the slots of a list, the first of which has the number `first`. -/
theorem exists_routes_from {inputs : List ChannelId} (first : Nat)
    (h : ∀ c ∈ inputs, ∀ d, p.channel? c = some d → ∃ routes : List (List Nat × Channel),
      p.flat d = routes.map Prod.snd ∧ (routes.map Prod.fst).Pairwise (· < ·) ∧
        ∀ route b, (route, b) ∈ routes ↔ p.Route d route b) :
    ∃ routes : List (List Nat × Channel),
      inputs.flatMap p.branchesOf = routes.map Prod.snd ∧ (routes.map Prod.fst).Pairwise (· < ·) ∧
        ∀ route b, (route, b) ∈ routes ↔ ∃ slot c d rest, route = (first + slot) :: rest ∧
          inputs[slot]? = some c ∧ p.channel? c = some d ∧ p.Route d rest b := by
  induction inputs generalizing first with
  | nil => exact ⟨[], rfl, .nil, by simp⟩
  | cons c inputs ih =>
    obtain ⟨others, hothers, hsorted, hmem⟩ :=
      ih (first + 1) fun d hd => h d (List.mem_cons_of_mem _ hd)
    obtain ⟨own, hown, hownSorted, hownMem⟩ : ∃ own : List (List Nat × Channel),
        p.branchesOf c = own.map Prod.snd ∧ (own.map Prod.fst).Pairwise (· < ·) ∧
          ∀ route b, (route, b) ∈ own ↔ ∃ d, p.channel? c = some d ∧ p.Route d route b := by
      cases hd : p.channel? c with
      | none => exact ⟨[], by simp [branchesOf, hd], .nil, by simp⟩
      | some d =>
        obtain ⟨own, hown⟩ := h c (List.mem_cons_self ..) d hd
        exact ⟨own, by simpa [branchesOf, hd] using hown⟩
    refine ⟨own.map (fun e => (first :: e.1, e.2)) ++ others, ?_, ?_, ?_⟩
    · simp [hown, hothers, Function.comp_def]
    · rw [List.map_append, List.map_map, List.pairwise_append]
      refine ⟨?_, hsorted, ?_⟩
      · rw [List.pairwise_map] at hownSorted ⊢
        exact hownSorted.imp fun hlt => List.cons_lt_cons_iff.mpr (.inr ⟨rfl, hlt⟩)
      -- A route from a later slot comes after all routes from the first one.
      · intro route hroute later hlater
        obtain ⟨e, -, rfl⟩ := List.mem_map.mp hroute
        obtain ⟨⟨route', b⟩, he', rfl⟩ := List.mem_map.mp hlater
        obtain ⟨slot, d, dh, rest, rfl, -⟩ := (hmem route' b).mp he'
        exact List.cons_lt_cons_iff.mpr (.inl (by omega))
    · intro route b
      rw [List.mem_append, hmem]
      constructor
      · rintro (hroute | ⟨slot, d, dh, rest, rfl, hslot, h⟩)
        · obtain ⟨⟨rest, b⟩, he, heq⟩ := List.mem_map.mp hroute
          obtain ⟨rfl, rfl⟩ := Prod.mk.inj heq
          obtain ⟨d, hd, h⟩ := (hownMem rest b).mp he
          exact ⟨0, c, d, rest, rfl, rfl, hd, h⟩
        · exact ⟨slot + 1, d, dh, rest, by rw [Nat.add_right_comm, Nat.add_assoc], hslot, h⟩
      · rintro ⟨slot, d, dh, rest, rfl, hslot, hd, h⟩
        cases slot with
        | zero =>
          obtain rfl : c = d := Option.some.inj hslot
          exact .inl (List.mem_map.mpr ⟨(rest, b), (hownMem rest b).mpr ⟨dh, hd, h⟩, rfl⟩)
        | succ slot =>
          exact .inr ⟨slot, d, dh, rest, by rw [Nat.add_right_comm, Nat.add_assoc], hslot, hd, h⟩

/-- The branches of a channel are the ends of the routes from it, in the order of their slots. -/
theorem exists_routes {c : ChannelId} {ch : Channel} (hch : p.channel? c = some ch) :
    ∃ routes : List (List Nat × Channel),
      p.flat ch = routes.map Prod.snd ∧ (routes.map Prod.fst).Pairwise (· < ·) ∧
        ∀ route b, (route, b) ∈ routes ↔ p.Route ch route b := by
  induction c, ch, hch using p.channel_induction with
  | own c ch n hch hn hu =>
    refine ⟨[([], ch)], p.flat_of_not_union hn hu, by simp, fun route b => ?_⟩
    rw [List.mem_singleton, Prod.mk.injEq]
    constructor
    · rintro ⟨rfl, rfl⟩
      exact .own hn hu
    · intro h
      cases h with
      | own => exact ⟨rfl, rfl⟩
      | union hm hum =>
        obtain rfl := Option.some.inj (hn.symm.trans hm)
        rw [hu] at hum
        contradiction
  | union c ch n hch hn hu ih =>
    obtain ⟨routes, hflat, hsorted, hmem⟩ := exists_routes_from 0 ih
    refine ⟨routes, (p.flat_of_union hn hu).trans hflat, hsorted, fun route b => ?_⟩
    rw [hmem]
    constructor
    · rintro ⟨slot, c, d, rest, rfl, hslot, hd, h⟩
      rw [Nat.zero_add]
      exact .union hn hu hslot hd h
    · intro h
      cases h with
      | own hm hum =>
        obtain rfl := Option.some.inj (hn.symm.trans hm)
        rw [hu] at hum
        contradiction
      | @union _ d _ m slot c rest hm _ hslot hd h =>
        obtain rfl := Option.some.inj (hn.symm.trans hm)
        exact ⟨slot, c, d, rest, by rw [Nat.zero_add], hslot, hd, h⟩

/-! ## Section 3: Branches -/

/-- An input of a node is listed without a fault, after at most as many steps as the plan gives. Its
branches are its own channel, or those of the inputs of the union that it starts at in slot order; they
start at no union, and they are the ends of all routes from it, one for each. In a built plan there is
one. -/
theorem branches_flatten {n : Node} (hn : n ∈ p.nodes) {c : ChannelId} (hc : c ∈ n.inputs) :
    ∃ ch source, p.channel? c = some ch ∧ p.node? ch.source = some source ∧
      (∀ spare, p.strictBranches (p.channelWork c + spare) ch = some (.ok (p.flat ch))) ∧
      p.branches ch = .ok (p.flat ch) ∧
      p.flat ch = (if source.isUnion then source.inputs.flatMap p.branchesOf else [ch]) ∧
      (∀ b ∈ p.flat ch, ∃ m, p.node? b.source = some m ∧ m.isUnion = false) ∧
      (∃ routes : List (List Nat × Channel), p.flat ch = routes.map Prod.snd ∧
        (routes.map Prod.fst).Pairwise (· < ·) ∧
        ∀ route b, (route, b) ∈ routes ↔ p.Route ch route b) ∧
      ∀ builder : Builder, builder.build = .ok p → p.flat ch ≠ [] := by
  obtain ⟨ch, hch, -⟩ := p.consistent.input_target n hn c hc
  obtain ⟨source, hsource⟩ := p.exists_source hch
  refine ⟨ch, source, hch, hsource, fun spare => ?_, p.branches_eq_flat hch, ?_,
    fun b hb => (p.mem_flat hch hb).2.1, exists_routes hch,
    fun builder hbuild => flat_ne_nil (built_of_build hbuild) hch⟩
  · have hstack : ∀ d ∈ [ch], ∃ n, p.node? d.source = some n := by simpa using ⟨source, hsource⟩
    have hwork : ([ch].map fun d => 1 + p.work d.source).sum ≤ p.channelWork c + spare := by
      simp [channelWork, hch]
    rw [Parts.strictBranches, strictBranchesFrom_eq hstack hwork]
    simp
  · cases hu : source.isUnion with
    | true => exact p.flat_of_union hsource hu
    | false => exact p.flat_of_not_union hsource hu

/-! ## Section 4: A union that is read twice -/

/-- Lines of two sources are joined, joined with themselves, and written. -/
def doubledCalls : List Builder.Call :=
  let forward : Shipment := { ship := .forward, serializer := ⟨"Line", .empty⟩ }
  [.add { name := "first", kind := .source ⟨"Line", .empty⟩ },
    .add { name := "second", kind := .source ⟨"Line", .empty⟩ },
    .add { name := "once", kind := .union }, .add { name := "twice", kind := .union },
    .add { name := "write", kind := .sink },
    .connect ⟨0⟩ ⟨2⟩ forward, .connect ⟨1⟩ ⟨2⟩ forward, .connect ⟨2⟩ ⟨3⟩ forward,
    .connect ⟨2⟩ ⟨3⟩ forward, .connect ⟨3⟩ ⟨4⟩ forward]

/-- The parts that the calls make, with the sink. -/
def doubledParts : Parts :=
  { ((Builder.new "doubled").after doubledCalls).parts with sinks := [⟨4⟩] }

theorem doubled_consistent : doubledParts.Consistent :=
  doubledParts.inconsistency?_eq_none_iff.mp (by decide)

theorem doubled_listing : doubledParts.listing = .ok [⟨4⟩, ⟨3⟩, ⟨2⟩, ⟨1⟩, ⟨0⟩] := by cbv

/-- The plan of these parts. -/
def doubled : Plan :=
  { doubledParts with
    consistent := doubled_consistent
    acyclic := Parts.acyclic_of_listing doubled_consistent doubled_listing }

theorem doubled_built : ((Builder.new "doubled").after doubledCalls).build = .ok doubled :=
  doubled.ofParts_toParts doubled_listing

theorem doubled_flat : doubled.flat doubled.channels[4] =
    [doubled.channels[0], doubled.channels[1], doubled.channels[0], doubled.channels[1]] := by cbv

/-- The channel to the sink has both sources twice, in their order, and two routes lead to each. -/
theorem doubled_flattened : ((Builder.new "doubled").after doubledCalls).build = .ok doubled ∧
    doubled.branches doubled.channels[4] = .ok
      [doubled.channels[0], doubled.channels[1], doubled.channels[0], doubled.channels[1]] ∧
    doubled.Route doubled.channels[4] [0, 1] doubled.channels[1] ∧
    doubled.Route doubled.channels[4] [1, 1] doubled.channels[1] := by
  have hinput : (⟨4⟩ : ChannelId) ∈ doubled.nodes[4].inputs := List.mem_singleton_self _
  obtain ⟨ch, source, hch, -, -, hbranches, -⟩ := branches_flatten (Array.getElem_mem _) hinput
  obtain rfl : doubled.channels[4] = ch := Option.some.inj hch
  rw [doubled_flat] at hbranches
  have hown : doubled.Route doubled.channels[1] [] doubled.channels[1] :=
    .own (n := doubled.nodes[1]) rfl rfl
  have honce : doubled.Route doubled.channels[2] [1] doubled.channels[1] :=
    .union (n := doubled.nodes[2]) rfl rfl rfl rfl hown
  have hagain : doubled.Route doubled.channels[3] [1] doubled.channels[1] :=
    .union (n := doubled.nodes[2]) rfl rfl rfl rfl hown
  exact ⟨doubled_built, hbranches, .union (n := doubled.nodes[3]) rfl rfl rfl rfl honce,
    .union (n := doubled.nodes[3]) rfl rfl rfl rfl hagain⟩

end Plan

end Dataflow
