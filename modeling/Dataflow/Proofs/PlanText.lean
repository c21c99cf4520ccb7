import Dataflow.Plan.Builder
import Dataflow.Plan.Encoding
import Dataflow.Proofs.Admission
import Dataflow.Proofs.Records

/-! # Plans read from their texts

    The text of a plan without floats holds the plan: every field is read back
    from its encoding, be it left out, `null` or a name, and the parts that are
    read are those of a plan, so that they are admitted once more. Handles are
    positions in arenas and fit 64 bits if the arenas do.

    Main statements:
    - `Consistent.carries`: parts are read back from their encoding
    - `ofText_toText`: a plan is read back from its text, and from its encoding
      wherever it stands
-/

namespace Dataflow

namespace Plan

/-! ## Section 1: Nodes and channels -/

theorem Kind.carries (origin : Json.Origin) (k : Kind) :
    Json.Carries (Json.required? (Kind.ofJson? origin)) k.toJson k := by
  cases k with
  | source serializer =>
    have hserializer := serializer.carries
    have hnodup : ["serializer"].Nodup := by decide
    refine ⟨.object (by simpa using .object (by simpa using hserializer.exact)), ?_⟩
    show ofJson? origin (toJson (source serializer)) = _
    simp [ofJson?, toJson, Json.variant?, Json.content?_object, hnodup, hserializer.decoded]
  | sink => exact ⟨.string _, by cases origin <;> rfl⟩
  | singleInput driver comparator =>
    have hdriver := driver.carries
    have hcomparator := Descriptor.carries_optional comparator
    have hnodup : ["driver", "comparator"].Nodup := by decide
    refine ⟨.object (by simpa using .object (by simp [hdriver.exact, hcomparator.exact])), ?_⟩
    show ofJson? origin (toJson (singleInput driver comparator)) = _
    simp [ofJson?, toJson, Json.variant?, Json.content?_object, hnodup, hdriver.decoded,
      hcomparator.decoded]
  | dualInput driver comparator₁ comparator₂ pairComparator =>
    have hdriver := driver.carries
    have hcomparator₁ := Descriptor.carries_optional comparator₁
    have hcomparator₂ := Descriptor.carries_optional comparator₂
    have hpair := Descriptor.carries_optional pairComparator
    have hnodup : ["driver", "comparator1", "comparator2", "pair_comparator"].Nodup := by decide
    refine ⟨.object (by simpa using .object (by simp [hdriver.exact, hcomparator₁.exact,
      hcomparator₂.exact, hpair.exact])), ?_⟩
    show ofJson? origin (toJson (dualInput driver comparator₁ comparator₂ pairComparator)) = _
    simp [ofJson?, toJson, Json.variant?, Json.content?_object, hnodup, hdriver.decoded,
      hcomparator₁.decoded, hcomparator₂.decoded, hpair.decoded]
  | union => exact ⟨.string _, by cases origin <;> rfl⟩

/-- A kind nests a variant, its content and a descriptor at most. -/
theorem Kind.depth_toJson_le (k : Kind) : k.toJson.depth ≤ 4 := by
  cases k <;> simp [toJson, DriverStrategy.toJson, Descriptor.depth_toJson_le]

/-- A node is read back if its handles fit 64 bits and its parameters hold no float. -/
theorem Node.carries (origin : Json.Origin) {n : Node} (hid : n.id.index < UInt64.size)
    (hchannels : ∀ c ∈ n.inputs ++ n.outgoing, c.index < UInt64.size)
    (hparameters : n.userCode.parameters.Floatless) :
    Json.Carries (Json.required? (Node.ofJson? origin)) n.toJson n := by
  have hid := Handle.carries hid
  have hname := Json.carries_string n.name
  have hkind := n.kind.carries origin
  have hparallelism := Json.carries_uint32 n.parallelism
  have hsubtasks : Json.Carries (Json.optional? Json.uint32?) _ n.subtasksPerInstance :=
    .optional rfl fun k _ => Json.carries_uint32 k
  have hmemory := Json.carries_uint64 n.memory
  have hcode := UserCode.carries hparameters
  have hinputs := Handle.carries_list fun c hc => hchannels c (List.mem_append_left _ hc)
  have houtgoing := Handle.carries_list fun c hc => hchannels c (List.mem_append_right _ hc)
  have hnodup : fieldNames.Nodup := by decide
  refine ⟨.object ?_, ?_⟩
  · simp [hid.exact, hname.exact, hkind.exact, hparallelism.exact, hsubtasks.exact, hmemory.exact,
      hcode.exact, hinputs.exact, houtgoing.exact]
  · show ofJson? origin n.toJson = some n
    rw [fieldNames] at hnodup
    simp [ofJson?, toJson, fieldNames, Json.record?_object, hnodup, hid.decoded, hname.decoded, hkind.decoded,
      hparallelism.decoded, hsubtasks.decoded, hmemory.decoded, hcode.decoded, hinputs.decoded,
      houtgoing.decoded]

theorem Node.depth_toJson_le (n : Node) : n.toJson.depth ≤ 5 := by
  have hcode : n.userCode.toJson.depth ≤ 4 := Nat.le_trans n.userCode.depth_toJson_le (by decide)
  have hhandles (l : List ChannelId) : (Json.ofList Handle.toJson l).depth ≤ 3 + 1 := by
    simp [Handle.toJson]
  simp [toJson, Handle.toJson, Kind.depth_toJson_le, hcode, hhandles]

/-- A channel is read back if its handles fit 64 bits. -/
theorem Channel.carries {c : Channel} (hid : c.id.index < UInt64.size)
    (hsource : c.source.index < UInt64.size) (htarget : c.target.index < UInt64.size) :
    Json.Carries (Json.required? Channel.ofJson?) c.toJson c := by
  have hid := Handle.carries hid
  have hsource := Handle.carries hsource
  have htarget := Handle.carries htarget
  have hship := c.ship.carries
  have hshipComparator := Descriptor.carries_optional c.shipComparator
  have hlocal := c.localStrategy.carries
  have hlocalComparator := Descriptor.carries_optional c.localComparator
  have hserializer := c.serializer.carries
  have htempMode := c.tempMode.carries
  have htempMemory := Json.carries_uint64 c.tempMemory
  have hlocalMemory := Json.carries_uint64 c.localMemory
  have hnodup : fieldNames.Nodup := by decide
  refine ⟨.object ?_, ?_⟩
  · simp [hid.exact, hsource.exact, htarget.exact, hship.exact, hshipComparator.exact,
      hlocal.exact, hlocalComparator.exact, hserializer.exact, htempMode.exact, htempMemory.exact,
      hlocalMemory.exact]
  · show ofJson? c.toJson = some c
    rw [fieldNames] at hnodup
    simp [ofJson?, toJson, fieldNames, Json.record?_object, hnodup, hid.decoded, hsource.decoded,
      htarget.decoded, hship.decoded, hshipComparator.decoded, hlocal.decoded,
      hlocalComparator.decoded, hserializer.decoded, htempMode.decoded, htempMemory.decoded,
      hlocalMemory.decoded]

theorem Channel.depth_toJson_le (c : Channel) : c.toJson.depth ≤ 3 := by
  simp [toJson, Handle.toJson, ShipStrategy.toJson, LocalStrategy.toJson, TempMode.toJson,
    Descriptor.depth_toJson_le]

/-! ## Section 2: Parts -/

namespace Parts

/-- No setting of the job and no parameter of user code is a float. -/
structure Floatless (q : Parts) : Prop where
  /-- The settings of the job. -/
  config : q.config.Floatless
  /-- The parameters of the nodes. -/
  parameters : ∀ n ∈ q.nodes, n.userCode.parameters.Floatless

/-- Every position in an arena fits a 64-bit word. -/
structure Addressable (q : Parts) : Prop where
  /-- The positions of nodes. -/
  nodes : q.nodes.size ≤ UInt64.size
  /-- The positions of channels. -/
  channels : q.channels.size ≤ UInt64.size

variable {q : Parts}

/-- A channel that a node lists is one of the arena. -/
theorem Consistent.index_lt_of_listed (hq : q.Consistent) {n : Node} (hn : n ∈ q.nodes)
    {c : ChannelId} (hc : c ∈ n.inputs ++ n.outgoing) : c.index < q.channels.size := by
  have hthere : ∃ ch, q.channel? c = some ch := by
    rcases List.mem_append.mp hc with hc | hc
    · obtain ⟨ch, hch, -⟩ := hq.input_target n hn c hc
      exact ⟨ch, hch⟩
    · obtain ⟨ch, hch, -⟩ := hq.outgoing_source n hn c hc
      exact ⟨ch, hch⟩
  obtain ⟨ch, hch⟩ := hthere
  exact (Array.getElem?_eq_some_iff.mp hch).1

theorem Consistent.carries_node (hq : q.Consistent) (hsize : q.Addressable) (hfloat : q.Floatless)
    (origin : Json.Origin) {n : Node} (hn : n ∈ q.nodes) :
    Json.Carries (Json.required? (Node.ofJson? origin)) n.toJson n := by
  obtain ⟨i, hi⟩ := Array.mem_iff_getElem?.mp hn
  have hlt := (Array.getElem?_eq_some_iff.mp hi).1
  have hid := hq.index_of_node i n hi
  exact Node.carries origin (hid ▸ Nat.lt_of_lt_of_le hlt hsize.nodes)
    (fun c hc => Nat.lt_of_lt_of_le (hq.index_lt_of_listed hn hc) hsize.channels)
    (hfloat.parameters n hn)

theorem Consistent.carries_channel (hq : q.Consistent) (hsize : q.Addressable) {c : Channel}
    (hc : c ∈ q.channels) : Json.Carries (Json.required? Channel.ofJson?) c.toJson c := by
  obtain ⟨i, hi⟩ := Array.mem_iff_getElem?.mp hc
  have hlt := (Array.getElem?_eq_some_iff.mp hi).1
  have hid := hq.index_of_channel i c hi
  exact Channel.carries (hid ▸ Nat.lt_of_lt_of_le hlt hsize.channels)
    (Nat.lt_of_lt_of_le (hq.source_lt c hc) hsize.nodes)
    (Nat.lt_of_lt_of_le (hq.target_lt c hc) hsize.nodes)

/-- Parts are read back from their encoding if their handles agree with the arenas. -/
theorem Consistent.carries (hq : q.Consistent) (hsize : q.Addressable) (hfloat : q.Floatless)
    (origin : Json.Origin) : Json.Carries (Json.required? (Parts.ofJson? origin)) q.toJson q := by
  have hname := Json.carries_string q.jobName
  have hconfig := Configuration.carries hfloat.config
  have hinstance : Json.Carries (Json.optional? Json.string?) _ q.instanceType :=
    .optional rfl fun s _ => Json.carries_string s
  have hnodes := Json.Carries.list fun n hn =>
    hq.carries_node hsize hfloat origin (Array.mem_toList_iff.mp hn)
  have hchannels := Json.Carries.list fun c hc =>
    hq.carries_channel hsize (Array.mem_toList_iff.mp hc)
  have hsinks := Handle.carries_list fun s hs => Nat.lt_of_lt_of_le (hq.sink_lt s hs) hsize.nodes
  have hnodup : fieldNames.Nodup := by decide
  refine ⟨.object ?_, ?_⟩
  · simp [hname.exact, hconfig.exact, hinstance.exact, hnodes.exact, hchannels.exact, hsinks.exact]
  · show ofJson? origin q.toJson = some q
    rw [fieldNames] at hnodup
    simp [ofJson?, toJson, fieldNames, Json.record?_object, hnodup, hname.decoded, hconfig.decoded,
      hinstance.decoded, hnodes.decoded, hchannels.decoded, hsinks.decoded]

/-- A plan has no tasks that are nested one in another, so its text is far from the limit. -/
theorem depth_toJson_le (q : Parts) : q.toJson.depth ≤ Json.nestingLimit := by
  have hconfig : q.config.toJson.depth ≤ 6 := Nat.le_trans q.config.depth_toJson_le (by decide)
  have hchannel (c : Channel) : c.toJson.depth ≤ 5 := Nat.le_trans c.depth_toJson_le (by decide)
  have hseven : q.toJson.depth ≤ 7 := by
    simp [toJson, Handle.toJson, hconfig, Node.depth_toJson_le, hchannel]
  exact Nat.le_trans hseven (by decide)

end Parts

/-! ## Section 3: Plans -/

/-- A plan without floats is read back from its text, and from its encoding wherever it stands. -/
theorem ofText_toText (p : Plan) (hsize : p.Addressable) (hfloat : p.Floatless) :
    ofText p.toText = .ok p ∧ ∀ origin, ofJson origin p.toParts.toJson = .ok p := by
  have hread : ∀ origin, ofJson origin p.toParts.toJson = .ok p := by
    intro origin
    have hparts : Parts.ofJson? origin p.toParts.toJson = some p.toParts :=
      (p.consistent.carries hsize hfloat origin).decoded
    obtain ⟨l, hlisting⟩ := Parts.exists_listing p.acyclic
    rw [ofJson, hparts]
    exact congrArg (Except.mapError Refusal.fault) (ofParts_toParts p hlisting)
  refine ⟨?_, hread⟩
  have hscan := (p.consistent.carries hsize hfloat .text).exact.scan?_render
  rw [Json.limited_of_depth_le p.depth_toJson_le] at hscan
  rw [ofText, toText, hscan]
  exact hread .text

/-- Orders are joined with their customers; there are settings of every kind but floats. -/
def orderParts : Parts where
  jobName := "orders \"überfällig\""
  config := ((SortedMap.empty.insert "dry run" (.bool false)).insert "limit"
    (.integer Int64.minValue)).insert "note" (.string "\n→ 😀")
  instanceType := some "large"
  nodes := #[
    { (({ name := "orders", kind := .source ⟨"Order", .insert .empty "sep" "\t"⟩ } :
        NodeDraft).toNode ⟨0⟩) with outgoing := [⟨0⟩] },
    { (({ name := "customers", kind := .source ⟨"Customer", .empty⟩ } : NodeDraft).toNode ⟨1⟩) with
      outgoing := [⟨1⟩] },
    { (({ name := "join", kind := .dualInput .merge (some ⟨"Id", .empty⟩) none
            (some ⟨"Ids", .insert .empty "fields" "0,1"⟩),
          memory := 1099511627776, userCode := ⟨"Join", .insert .empty "skew" (.integer 3)⟩ } :
        NodeDraft).toNode ⟨2⟩) with inputs := [⟨0⟩, ⟨1⟩], outgoing := [⟨2⟩] },
    { (({ name := "out", kind := .sink } : NodeDraft).toNode ⟨3⟩) with inputs := [⟨2⟩] }]
  channels := #[
    { ship := .partitionHash, serializer := ⟨"Order", .empty⟩, id := ⟨0⟩, source := ⟨0⟩, target := ⟨2⟩ },
    { ship := .broadcast, serializer := ⟨"Customer", .empty⟩, tempMode := .cached, tempMemory := 1,
      id := ⟨1⟩, source := ⟨1⟩, target := ⟨2⟩ },
    { ship := .forward, serializer := ⟨"Line", .empty⟩, id := ⟨2⟩, source := ⟨2⟩, target := ⟨3⟩ }]
  sinks := [⟨3⟩]

/-- The parts are those of a plan, and the plan is read back. -/
theorem orders_read_back : ∃ p : Plan, p.toParts = orderParts ∧ p.Addressable ∧ p.Floatless ∧
    ofText p.toText = .ok p := by
  have hconsistent : orderParts.Consistent := orderParts.inconsistency?_eq_none_iff.mp (by decide)
  have hlisting : orderParts.listing = .ok [⟨3⟩, ⟨2⟩, ⟨1⟩, ⟨0⟩] := by cbv
  have hacyclic := Parts.acyclic_of_listing hconsistent hlisting
  have hsize : orderParts.Addressable := ⟨by decide, by decide⟩
  have hfloat : orderParts.Floatless := ⟨by decide, by decide⟩
  exact ⟨⟨orderParts, hconsistent, hacyclic⟩, rfl, hsize, hfloat, (ofText_toText _ hsize hfloat).1⟩

end Plan

end Dataflow
