import Dataflow.Lowering.Visitor
import Dataflow.Proofs.Fusion

/-! # Journals

    What a compilation does, as a list of entries that the schedule alone
    determines: nodes are made, branches wired, slots described and chains
    hosted. What the entries make of a node is defined by folding over them,
    with no state of a compilation in sight.

    Main statement:
    - `of_mem_entries`: what the entries for a callback are
-/

namespace Dataflow

namespace Plan

open Lowering

/-! ## Section 1: Entries -/

/-- One thing that a compilation does. -/
inductive Entry where
  /-- A node gets its vertex or its chain. -/
  | made (n : Node)
  /-- A branch of an input of a node gets its wire. -/
  | wired (n : Node) (input : Nat) (branch : Channel)
  /-- The slot of an input of a node is described by its channel. -/
  | described (n : Node) (input : Nat) (ch : Channel)
  /-- A fused node gets its host, over its channel. -/
  | hosted (n : Node) (ch : Channel)

/-- The node that is made. -/
def Entry.made? : Entry → Option Node
  | made n => some n
  | _ => none

/-- The fused node that gets its host. -/
def Entry.hosted? : Entry → Option Node
  | hosted n _ => some n
  | _ => none

variable (p : Plan)

/-- The entries for an input slot of a node with a vertex. -/
def slotEntries (n : Node) (slot : ChannelId × Nat) : List Entry :=
  match p.channel? slot.1 with
  | none => []
  | some ch => (p.flat ch).map (.wired n slot.2) ++ [.described n slot.2 ch]

/-- The entries for a callback. -/
def entries : Callback → List Entry
  | .enter n => [.made n]
  | .leave n =>
    if p.fuses n then (n.inputs.head?.bind p.channel?).toList.map (.hosted n)
    else n.inputs.zipIdx.flatMap (p.slotEntries n)

/-- The entries for some callbacks. -/
def journal (done : List Callback) : List Entry := done.flatMap p.entries

/-- The nodes that are made. -/
def madeNodes (j : List Entry) : List Node := j.filterMap Entry.made?

/-- The nodes that get a vertex, in order. -/
def ownNodes : List Node := p.entered.filter fun n => !p.fuses n

/-- The nodes that get a chain, in order. -/
def fusedNodes : List Node := p.entered.filter p.fuses

/-- The position of a node in a list. -/
def position (l : List Node) (id : NodeId) : Nat := l.findIdx fun n => n.id = id

/-- The vertex of a node. -/
def vertexOf (id : NodeId) : VertexId := ⟨position p.ownNodes id⟩

/-- The chain of a node. -/
def chainOf (id : NodeId) : ChainId := ⟨position p.fusedNodes id⟩

/-! ## Section 2: What the entries make of a node -/

/-- The configuration of a node when it is made. -/
def baseConfig (policy : SpillPolicy) (n : Node) : TaskConfig :=
  match n.kind with
  | .source serializer => sourceConfig n serializer
  | .sink => sinkConfig n
  | .singleInput driver comparator =>
    { operatorConfig policy n driver [comparator] none with
      driver := if p.fuses n then none else driver.taskDriver? }
  | .dualInput driver first second pairComparator =>
    { operatorConfig policy n driver [first, second] pairComparator with
      driver := driver.taskDriver? }
  | .union => {}

/-- What an entry does to the configuration of a node. -/
def configStep (policy : SpillPolicy) (n : Node) (t : TaskConfig) : Entry → TaskConfig
  | .made _ => t
  | .wired m input branch =>
    let t := if branch.source = n.id then t.addOutputFor branch else t
    if m.id = n.id then t.addWire input else t
  | .described m input ch => if m.id = n.id then t.describeInput policy ch input else t
  | .hosted m ch =>
    if m.id = n.id then
      t.updateInput 0 fun slot => { slot with serializer := some ch.serializer }
    else if ch.source = n.id ∧ p.fuses n = false then t.addOutput .forward
    else t

/-- The configuration of a node after some entries. -/
def configAfter (policy : SpillPolicy) (j : List Entry) (n : Node) : TaskConfig :=
  j.foldl (p.configStep policy n) (p.baseConfig policy n)

/-- The wire of an entry, if it leaves from the vertex of a node. -/
def wireFrom? (id : NodeId) : Entry → Option Wire
  | .wired n _ branch =>
    if p.host branch.source = id then
      branch.ship.wire.toOption.map fun (transport, pattern) =>
        { target := p.vertexOf n.id, transport, pattern }
    else none
  | _ => none

/-- The wires that leave from the vertex of a node after some entries. -/
def wiresAfter (j : List Entry) (id : NodeId) : List Wire := j.filterMap (p.wireFrom? id)

/-- The kind of the vertex of a node. -/
def vertexKind (n : Node) : VertexKind :=
  match n.kind with
  | .source _ => .input
  | .sink => .output
  | _ => .task

/-- The task of the vertex of a node. -/
def taskClass (n : Node) : TaskClass :=
  match n.kind with
  | .source _ => .dataSource
  | .sink => .dataSink
  | _ => .regular

/-- The driver that records are pushed to. -/
def pushDriver (n : Node) : String := (n.kind.driver?.bind DriverStrategy.chainDriver?).getD ""

/-- The fused nodes that have a host. -/
def hostedNodes (j : List Entry) : List Node := j.filterMap Entry.hosted?

/-- The first node of the greatest parallelism. -/
def leading (nodes : List Node) : Option Node :=
  nodes.foldl (fun best n =>
    match best with
    | none => some n
    | some m => if m.parallelism < n.parallelism then some n else some m) none

/-! ## Section 3: One more entry -/

theorem configAfter_concat (policy : SpillPolicy) (j : List Entry) (e : Entry) (n : Node) :
    p.configAfter policy (j ++ [e]) n = p.configStep policy n (p.configAfter policy j n) e := by
  simp [configAfter]

theorem wiresAfter_concat (j : List Entry) (e : Entry) (id : NodeId) :
    p.wiresAfter (j ++ [e]) id = p.wiresAfter j id ++ (p.wireFrom? id e).toList := by
  simp only [wiresAfter, List.filterMap_append, List.filterMap_cons, List.filterMap_nil]
  cases p.wireFrom? id e <;> rfl

theorem madeNodes_append (j j' : List Entry) : madeNodes (j ++ j') = madeNodes j ++ madeNodes j' := by
  simp [madeNodes]

theorem hostedNodes_append (j j' : List Entry) :
    hostedNodes (j ++ j') = hostedNodes j ++ hostedNodes j' := by
  simp [hostedNodes]

theorem journal_cons (cb : Callback) (done : List Callback) :
    p.journal (cb :: done) = p.entries cb ++ p.journal done := List.flatMap_cons

theorem journal_append (done done' : List Callback) :
    p.journal (done ++ done') = p.journal done ++ p.journal done' := by
  simp [journal]

theorem journal_concat (done : List Callback) (cb : Callback) :
    p.journal (done ++ [cb]) = p.journal done ++ p.entries cb := by
  simp [journal]

theorem entries_of_fused {p : Plan} {n : Node} {ch : Channel} {producer : Node}
    (h : p.Fused n ch producer) : p.entries (.leave n) = [.hosted n ch] := by
  obtain ⟨c, rest, hinputs, hch⟩ := h.input
  simp [entries, h.fuses, hinputs, hch]

/-- What the entries for a callback are: a node that is entered is made; a fused node that is left is
hosted; any other node that is left has its branches wired and its inputs described. -/
inductive Entry.Of (p : Plan) : Callback → Entry → Prop where
  | made (n : Node) : Of p (.enter n) (.made n)
  | hosted {n : Node} {ch : Channel} {producer : Node} (h : p.Fused n ch producer) :
      Of p (.leave n) (.hosted n ch)
  | wired {n : Node} {i : Nat} {c : ChannelId} {ch b : Channel} (hf : p.fuses n = false)
      (hi : n.inputs[i]? = some c) (hch : p.channel? c = some ch) (hb : b ∈ p.flat ch) :
      Of p (.leave n) (.wired n i b)
  | described {n : Node} {i : Nat} {c : ChannelId} {ch : Channel} (hf : p.fuses n = false)
      (hi : n.inputs[i]? = some c) (hch : p.channel? c = some ch) :
      Of p (.leave n) (.described n i ch)

theorem of_mem_entries {cb : Callback} (hcb : p.node? cb.node.id = some cb.node) {e : Entry}
    (he : e ∈ p.entries cb) : e.Of p cb := by
  cases cb with
  | enter n =>
    obtain rfl := List.mem_singleton.mp he
    exact .made n
  | leave n =>
    cases hf : p.fuses n with
    | true =>
      obtain ⟨ch, producer, h⟩ : ∃ ch producer, p.Fused n ch producer := p.exists_fused hcb hf
      rw [entries_of_fused h, List.mem_singleton] at he
      exact he ▸ .hosted h
    | false =>
      simp only [entries, hf, Bool.false_eq_true, if_false, List.mem_flatMap] at he
      obtain ⟨⟨c, i⟩, hslot, he⟩ := he
      have hi : n.inputs[i]? = some c := List.mem_zipIdx_iff_getElem?.mp hslot
      simp only [slotEntries] at he
      split at he
      · simp at he
      · rename_i ch hch
        rcases List.mem_append.mp he with he | he
        · obtain ⟨b, hb, rfl⟩ := List.mem_map.mp he
          exact .wired hf hi hch hb
        · exact List.mem_singleton.mp he ▸ .described hf hi hch

theorem madeNodes_entries {cb : Callback} (hn : p.node? cb.node.id = some cb.node) :
    madeNodes (p.entries cb) = cb.entered?.toList := by
  cases cb with
  | enter n => rfl
  | leave n =>
    apply List.filterMap_eq_nil_iff.mpr
    intro e he
    cases p.of_mem_entries hn he <;> rfl

theorem hostedNodes_entries {cb : Callback} (hn : p.node? cb.node.id = some cb.node) :
    hostedNodes (p.entries cb) = cb.left?.toList.filter p.fuses := by
  cases cb with
  | enter n => rfl
  | leave n =>
    cases hf : p.fuses n with
    | true =>
      obtain ⟨ch, producer, h⟩ : ∃ ch producer, p.Fused n ch producer := p.exists_fused hn hf
      simp [entries_of_fused h, hostedNodes, Entry.hosted?, Callback.left?, hf]
    | false =>
      have hnone : hostedNodes (p.entries (.leave n)) = [] := by
        apply List.filterMap_eq_nil_iff.mpr
        intro e he
        cases p.of_mem_entries hn he with
        | hosted h => simp [h.fuses] at hf
        | wired => rfl
        | described => rfl
      simp [hnone, Callback.left?, hf]

theorem madeNodes_journal {done : List Callback}
    (hdone : ∀ cb ∈ done, p.node? cb.node.id = some cb.node) :
    madeNodes (p.journal done) = done.filterMap Callback.entered? := by
  induction done with
  | nil => rfl
  | cons cb rest ih =>
    rw [journal_cons, madeNodes_append, p.madeNodes_entries (hdone cb (List.mem_cons_self ..)),
      ih fun cb hcb => hdone cb (List.mem_cons_of_mem _ hcb), List.filterMap_cons]
    cases cb.entered? <;> rfl

theorem hostedNodes_journal {done : List Callback}
    (hdone : ∀ cb ∈ done, p.node? cb.node.id = some cb.node) :
    hostedNodes (p.journal done) = (done.filterMap Callback.left?).filter p.fuses := by
  induction done with
  | nil => rfl
  | cons cb rest ih =>
    rw [journal_cons, hostedNodes_append, p.hostedNodes_entries (hdone cb (List.mem_cons_self ..)),
      ih fun cb hcb => hdone cb (List.mem_cons_of_mem _ hcb), List.filterMap_cons]
    cases hl : cb.left? with
    | none => simp
    | some n => simp [List.filter_cons, List.filter_nil]; split <;> rfl

/-! ## Section 4: Positions -/

theorem index_injective {l : List Node} (hl : (l.map Node.id).Nodup) {i j : Nat} {n m : Node}
    (hn : l[i]? = some n) (hm : l[j]? = some m) (h : n.id = m.id) : i = j := by
  have hi : (l.map Node.id)[i]? = some n.id := by simp [hn]
  have hj : (l.map Node.id)[j]? = some n.id := by simp [hm, h]
  have hlt : i < (l.map Node.id).length := (List.getElem?_eq_some_iff.mp hi).1
  exact (List.getElem?_inj hlt hl).mp (hi.trans hj.symm)

theorem position_lt {l : List Node} {n : Node} (hn : n ∈ l) : position l n.id < l.length := by
  unfold position
  exact List.findIdx_lt_length_of_exists ⟨n, hn, by simp⟩

theorem getElem?_position {l : List Node} {n : Node} (hn : n ∈ l) :
    ∃ m, l[position l n.id]? = some m ∧ m.id = n.id := by
  have hlt := position_lt hn
  refine ⟨l[position l n.id], List.getElem?_eq_getElem hlt, ?_⟩
  exact of_decide_eq_true (List.findIdx_getElem (w := hlt))

theorem position_eq {l : List Node} (hl : (l.map Node.id).Nodup) {i : Nat} {n : Node}
    (h : l[i]? = some n) : position l n.id = i := by
  obtain ⟨m, hm, hid⟩ := getElem?_position (List.mem_of_getElem? h)
  exact index_injective hl hm h hid

end Plan

end Dataflow
