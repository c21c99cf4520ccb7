import Dataflow.Proofs.Faults
import Dataflow.Proofs.Make
import Dataflow.Proofs.Runs

/-! # Leaving a node

    When a node is left, the sources of all branches of its inputs are settled:
    each has become something, and what hosts it has a vertex. So no look-up
    fails on the way, and only the faults of the branches themselves are left.

    Main statement:
    - `leave_runs`: a node that is left gets its wires or its host, or the fault
      of leaving it shows
-/

namespace Dataflow

namespace Plan

open Lowering

variable {p : Plan} {policy : SpillPolicy} {job : JobId} {s : State} {j : List Entry}

/-! ## Section 1: Settled nodes -/

/-- A node is made, hosted if it is fused, and so is its host. -/
def Settled (p : Plan) (j : List Entry) (id : NodeId) : Prop :=
  ∃ m ∈ madeNodes j, m.id = id ∧ (p.fuses m = true → m ∈ hostedNodes j) ∧
    ∃ g ∈ madeNodes j, g.id = p.host id ∧ p.fuses g = false

theorem Settled.mono {id : NodeId} (h : p.Settled j id) (j' : List Entry) :
    p.Settled (j ++ j') id := by
  obtain ⟨m, hm, hid, hhost, g, hg, hgid, hgf⟩ := h
  simp only [Settled, madeNodes_append, hostedNodes_append, List.mem_append]
  exact ⟨m, Or.inl hm, hid, fun hf => Or.inl (hhost hf), g, Or.inl hg, hgid, hgf⟩

/-- In a layout that a state holds, a node that is made is named by its handle. -/
theorem Shows.id_eq_iff {l : Layout} (h : p.Shows job l s) {n m : Node} (hn : n ∈ l.made)
    (hm : m ∈ l.made) : n.id = m.id ↔ m = n :=
  ⟨fun hid => h.eq_of_id_eq hm hn hid.symm, fun heq => congrArg Node.id heq.symm⟩

/-! ## Section 2: Wires -/

section
variable {n : Node} (hn : n ∈ madeNodes j) (hf : p.fuses n = false)
include hn hf

/-- A branch whose source is settled gets its wire if its ship strategy has one. -/
theorem wireBranch_runs (h : p.Shows job (p.layoutAfter policy j) s) {b : Channel}
    (hb : p.Settled j b.source) (hne : p.host b.source ≠ n.id) (input : Nat) :
    Runs (wireBranch (p.vertexOf n.id) input b) s (shipFault? b)
      (p.Shows job (p.layoutAfter policy (j ++ [.wired n input b]))) := by
  obtain ⟨m, hm, hid, hhost, g, hg, hgid, hgf⟩ := hb
  have hproducer := h.producer hm hhost
  rw [hid, ← hgid] at hproducer
  unfold shipFault?
  cases hship : b.ship.wire with
  | error e =>
    exact ⟨s, by simp [wireBranch, bind, EStateM.bind, hproducer, hship, Step.ofExcept]⟩
  | ok wire =>
    obtain ⟨transport, pattern⟩ := wire
    -- The wire, the output slot of the source and the count at the target, one after another.
    let w : Wire := ⟨p.vertexOf n.id, transport, pattern⟩
    obtain ⟨s₁, hrun₁, h₁⟩ := h.connect hn hf hg hgf (hgid ▸ hne) (show w.target = _ from rfl)
    obtain ⟨s₂, hrun₂, h₂⟩ := h₁.updateOwner (n := m) hm fun config => config.addOutputFor b
    obtain ⟨s₃, hrun₃, h₃⟩ := h₂.updateConfig (n := n) hn hf fun config => config.addWire input
    rw [hid] at hrun₂
    let event : Event := .wireMade b.id (p.vertexOf g.id) (p.vertexOf n.id) b.ship transport pattern
    refine ⟨s₃.report event, ?_, (h₃.report event).congr ?_ (fun k hk => ?_) (fun k hk _ => ?_) ?_⟩
    · simp only [wireBranch, bind, EStateM.bind, hproducer, hship, Step.ofExcept, hrun₁, hrun₂,
        hrun₃, Step.report, w, event]
    · simp [layoutAfter, Layout.updateConfig, Layout.addWire, madeNodes, Entry.made?]
    · have hkn := h.id_eq_iff hn hk
      have hkm := h.id_eq_iff hm hk
      rw [hid] at hkm
      simp only [layoutAfter, Layout.updateConfig, Layout.addWire, configAfter_concat, configStep,
        hkn, hkm]
    · have hkg := h.id_eq_iff hg hk
      rw [hgid] at hkg
      simp only [layoutAfter, Layout.updateConfig, Layout.addWire, wiresAfter_concat, wireFrom?,
        hship, hkg, Except.toOption, Option.map_some, w]
      split <;> simp
    · simp [layoutAfter, Layout.updateConfig, Layout.addWire, hostedNodes, Entry.hosted?]

/-- The slot of an input is described. -/
theorem describe_runs (h : p.Shows job (p.layoutAfter policy j) s) (input : Nat) (ch : Channel) :
    Runs (Step.updateConfig (p.vertexOf n.id) fun config => config.describeInput policy ch input) s
      none (p.Shows job (p.layoutAfter policy (j ++ [.described n input ch]))) := by
  obtain ⟨s', hrun, hs'⟩ := h.updateConfig (n := n) hn hf fun config =>
    config.describeInput policy ch input
  refine ⟨s', hrun, hs'.congr ?_ (fun k hk => ?_) (fun k hk _ => ?_) ?_⟩
  · simp [layoutAfter, Layout.updateConfig, madeNodes, Entry.made?]
  · simp only [layoutAfter, Layout.updateConfig, configAfter_concat, configStep,
      h.id_eq_iff hn hk]
  · simp [layoutAfter, Layout.updateConfig, wiresAfter_concat, wireFrom?]
  · simp [layoutAfter, Layout.updateConfig, hostedNodes, Entry.hosted?]

/-- The branches of an input get their wires, one after another, or the first fault shows. -/
theorem wireBranches_runs (h : p.Shows job (p.layoutAfter policy j) s) {branches : List Channel}
    (hb : ∀ b ∈ branches, p.Settled j b.source ∧ p.host b.source ≠ n.id) (input : Nat) :
    Runs (branches.forM (wireBranch (p.vertexOf n.id) input)) s (branches.findSome? shipFault?)
      (p.Shows job (p.layoutAfter policy (j ++ branches.map (.wired n input)))) := by
  refine Runs.forM (fun pre => p.Shows job
    (p.layoutAfter policy (j ++ pre.map (.wired n input)))) ?_ (by simpa using h)
  intro pre b post hsplit s' hs'
  obtain ⟨hsettled, hne⟩ := hb b (by simp [hsplit])
  -- The node stays made and the source stays settled while the branches before it are wired.
  have hmade : n ∈ madeNodes (j ++ pre.map (.wired n input)) := by
    simp [madeNodes_append, hn]
  have := wireBranch_runs hmade hf hs' (hsettled.mono _) hne input
  simpa using this

/-- The wires of an input are made, branch by branch, or its first fault shows. -/
theorem wireInput_runs (h : p.Shows job (p.layoutAfter policy j) s) {slot : ChannelId × Nat}
    {ch : Channel} (hch : p.channel? slot.1 = some ch)
    (hb : ∀ b ∈ p.flat ch, p.Settled j b.source ∧ p.host b.source ≠ n.id) :
    Runs (wireInput policy p n (p.vertexOf n.id) slot) s (p.slotFault? n slot)
      (p.Shows job (p.layoutAfter policy (j ++ p.slotEntries n slot))) := by
  obtain ⟨c, input⟩ := slot
  have hbranches : p.branchesOf c = p.flat ch := by simp [branchesOf, hch]
  have hentries : p.slotEntries n (c, input) =
      (p.flat ch).map (.wired n input) ++ [.described n input ch] := by
    simp [slotEntries, hch]
  have hchannel : lookedUp (p.channel c) = .ok ch := by
    rw [p.channel_eq_ok.mpr hch, lookedUp_ok]
  have hlooked : lookedUp (p.branches ch) = .ok (p.flat ch) := by
    rw [p.branches_eq_flat hch, lookedUp_ok]
  rw [hentries, ← List.append_assoc]
  simp only [slotFault?, hbranches]
  -- There must be branches and they must agree before the first wire is made.
  by_cases hnil : p.flat ch = []
  · rw [if_pos hnil]
    refine ⟨s, ?_⟩
    simp only [wireInput, bind, EStateM.bind, hchannel, hlooked, Step.ofExcept, if_pos hnil]
    rfl
  · rw [if_neg hnil]
    cases hconflict : serializerConflict? (p.flat ch) with
    | some e =>
      refine ⟨s, ?_⟩
      simp only [wireInput, bind, EStateM.bind, hchannel, hlooked, Step.ofExcept, if_neg hnil,
        hconflict]
      rfl
    | none =>
      have hloop := wireBranches_runs hn hf h hb input
      have hrun := hloop.bind fun s' hs' => describe_runs (by simp [madeNodes_append, hn]) hf hs'
        input ch
      have hstep : wireInput policy p n (p.vertexOf n.id) (c, input) s =
          ((p.flat ch).forM (wireBranch (p.vertexOf n.id) input) >>= fun _ =>
            Step.updateConfig (p.vertexOf n.id) fun config =>
              config.describeInput policy ch input) s := by
        simp only [wireInput, bind, EStateM.bind, hchannel, hlooked, Step.ofExcept, if_neg hnil,
          hconflict]
      simpa [Runs, hstep] using hrun

/-- The wires of all inputs of a node are made, slot by slot, or the first fault shows. -/
theorem wireInputs_runs (h : p.Shows job (p.layoutAfter policy j) s)
    (hinputs : ∀ slot ∈ n.inputs.zipIdx, ∃ ch, p.channel? slot.1 = some ch ∧
      ∀ b ∈ p.flat ch, p.Settled j b.source ∧ p.host b.source ≠ n.id) :
    Runs (n.inputs.zipIdx.forM (wireInput policy p n (p.vertexOf n.id))) s (p.leaveFault? n)
      (p.Shows job (p.layoutAfter policy (j ++ p.entries (.leave n)))) := by
  have hentries : p.entries (.leave n) = n.inputs.zipIdx.flatMap (p.slotEntries n) := by
    simp [entries, hf]
  rw [hentries, leaveFault?, if_neg (by simp [hf])]
  refine Runs.forM (fun pre => p.Shows job
    (p.layoutAfter policy (j ++ pre.flatMap (p.slotEntries n)))) ?_ (by simpa using h)
  intro pre slot post hsplit s' hs'
  obtain ⟨ch, hch, hb⟩ := hinputs slot (by simp [hsplit])
  have hmade : n ∈ madeNodes (j ++ pre.flatMap (p.slotEntries n)) := by
    simp [madeNodes_append, hn]
  have := wireInput_runs hmade hf hs' hch fun b hbmem =>
    ⟨(hb b hbmem).1.mono _, (hb b hbmem).2⟩
  simpa using this

end

/-! ## Section 3: Hosts -/

/-- The layout with one more output slot at a node that has a vertex, the entry to fused tasks. -/
def Layout.addEntry (p : Plan) (l : Layout) (m : Node) : Layout :=
  { l with
    config := fun k =>
      if k = m ∧ p.fuses k = false then (l.config k).addOutput .forward else l.config k }

/-- The host for a fused node is that of its producer, which gets an entry if it has a vertex. -/
theorem findHost_run {l : Layout} (h : p.Shows job l s) {n m : Node} (hm : m ∈ l.made)
    (hhost : p.fuses m = true → m ∈ l.resolved) :
    ∃ s', findHost n m.id s = .ok (p.vertexOf (p.host m.id)) s' ∧
      p.Shows job (l.addEntry p m) s' := by
  have hid := (p.mem_entered.mp (h.begun.subset hm)).1
  have hout := h.outcome?_eq hm
  cases hf : p.fuses m with
  | true =>
    rw [hf, if_pos rfl] at hout
    refine ⟨s, ?_, h.congr rfl (fun k _ => ?_) (fun _ _ _ => rfl) rfl⟩
    · simp only [findHost, bind, EStateM.bind, get_apply, hout,
        h.chain_run hm hf, chainIn, if_pos (hhost hf)]
      rfl
    · refine if_neg ?_
      rintro ⟨rfl, hkf⟩
      simp [hf] at hkf
  | false =>
    rw [hf, if_neg (by simp)] at hout
    obtain ⟨s', hrun, hs'⟩ := h.updateConfig hm hf fun t => t.addOutput .forward
    refine ⟨s', ?_, hs'.congr rfl (fun k _ => ?_) (fun _ _ _ => rfl) rfl⟩
    · simp only [findHost, bind, EStateM.bind, get_apply, hout,
        hrun, p.host_of_not_fuses hid hf]
      rfl
    · by_cases hkm : k = m
      · subst hkm
        simp [Layout.addEntry, Layout.updateConfig, hf]
      · simp [Layout.addEntry, Layout.updateConfig, hkm]

/-- A fused node with one input is resolved when its producer has a host and it has none itself. -/
theorem resolveChain_run {n : Node} {ch : Channel} {producer : Node} {c : ChannelId} {id : ChainId}
    {chain : Chain} {host : VertexId} {s₁ : State} (hfused : p.Fused n ch producer)
    (hinputs : n.inputs = [c]) (hch : p.channel? c = some ch)
    (hhost : findHost n ch.source s = .ok host s₁) (hchain : s₁.chain? id = some chain)
    (hnew : chain.host = none) :
    resolveChain p n id s = .ok () ({ s₁ with
      chains := s₁.chains.modify id.index fun chain =>
        { chain with
          host := some host
          config := chain.config.updateInput 0 fun slot =>
            { slot with serializer := some ch.serializer } }
      resolved := s₁.resolved.push id }.report (.chainResolved n.id id host)) := by
  have hchannel : lookedUp (p.channel c) = .ok ch := by
    rw [p.channel_eq_ok.mpr hch, lookedUp_ok]
  have hlt : id.index < s₁.chains.size := (Array.getElem?_eq_some_iff.mp hchain).1
  have hrun : Step.chain id s₁ = .ok chain s₁ := by simp only [Step.chain, hchain]
  unfold resolveChain
  simp only [hinputs]
  simp [bind, EStateM.bind, Step.ofExcept, hchannel, hfused.localStrategy, hfused.ship, hhost,
    hrun, hnew, Step.updateChain, hlt, Step.report, modify_apply]

section
variable {n : Node} (hn : n ∈ madeNodes j) {ch : Channel} {producer : Node}
  (hfused : p.Fused n ch producer)
include hn hfused

/-- The layout with a fused node resolved is the one after the entry. -/
theorem Shows.after_hosted (h : p.Shows job (p.layoutAfter policy j) s) {m : Node}
    (hm : m ∈ madeNodes j) (hid : m.id = ch.source) (hne : ch.source ≠ n.id) {s' : State}
    (hs' : p.Shows job (((p.layoutAfter policy j).addEntry p m).resolve n
      fun t => t.updateInput 0 fun slot => { slot with serializer := some ch.serializer }) s') :
    p.Shows job (p.layoutAfter policy (j ++ [.hosted n ch])) s' := by
  refine hs'.congr ?_ (fun k hk => ?_) (fun k _ _ => ?_) ?_
  · simp [layoutAfter, Layout.resolve, Layout.updateConfig, Layout.addEntry, madeNodes,
      Entry.made?]
  · have hkn := h.id_eq_iff hn hk
    have hkm := h.id_eq_iff hm hk
    rw [hid] at hkm
    have hmn : n ≠ m := by
      rintro rfl
      exact hne hid.symm
    simp only [layoutAfter, Layout.resolve, Layout.updateConfig, Layout.addEntry,
      configAfter_concat, configStep, hkn, hkm]
    by_cases hk : k = n
    · subst hk
      simp [hmn]
    · simp [hk]
  · simp [layoutAfter, Layout.resolve, Layout.updateConfig, Layout.addEntry, wiresAfter_concat,
      wireFrom?]
  · simp [layoutAfter, Layout.resolve, Layout.addEntry, hostedNodes, Entry.hosted?]

/-- A fused node with one input gets the host of its producer. -/
theorem resolveChain_runs (h : p.Shows job (p.layoutAfter policy j) s)
    (hsettled : p.Settled j ch.source) (hnew : n ∉ hostedNodes j) (hne : ch.source ≠ n.id) :
    Runs (resolveChain p n (p.chainOf n.id)) s (p.leaveFault? n)
      (p.Shows job (p.layoutAfter policy (j ++ p.entries (.leave n)))) := by
  obtain ⟨c, rest, hinputs, hch⟩ := hfused.input
  rw [entries_of_fused hfused, leaveFault?, if_pos hfused.fuses]
  cases rest with
  | cons c' rest =>
    rw [if_neg (by simp [hinputs])]
    refine ⟨s, ?_⟩
    simp only [resolveChain, hinputs]
    rfl
  | nil =>
    rw [if_pos (by simp [hinputs])]
    -- The producer is asked for its host first, which may count an output at its vertex.
    obtain ⟨m, hm, hid, hhost, -⟩ := hsettled
    have hnode := (p.mem_entered.mp (h.begun.subset hn)).1
    obtain ⟨s₁, hrun₁, h₁⟩ := findHost_run (n := n) h hm hhost
    rw [hid, ← hfused.host_eq hnode] at hrun₁
    have hchain := h₁.chain?_eq (n := n) hn hfused.fuses
    have hrun := resolveChain_run hfused hinputs hch hrun₁ hchain (if_neg hnew)
    have h₂ := h₁.resolve (n := n) hn hfused.fuses fun t => t.updateInput 0 fun slot =>
      { slot with serializer := some ch.serializer }
    exact ⟨_, hrun, (Shows.after_hosted hn hfused h hm hid hne h₂).report _⟩

end

/-! ## Section 4: Leaving a node -/

section
variable {n : Node} (h : p.Shows job (p.layoutAfter policy j) s) (hn : n ∈ madeNodes j)
include h hn

/-- Nothing happens when a node without inputs is left. -/
theorem leave_nil_runs (hnil : n.inputs = []) : Runs (wire policy p n) s (p.leaveFault? n)
    (p.Shows job (p.layoutAfter policy (j ++ p.entries (.leave n)))) := by
  have hf : p.fuses n = false := by
    by_contra hf
    have hnode := (p.mem_entered.mp (h.begun.subset hn)).1
    obtain ⟨ch, producer, hfused⟩ := p.exists_fused hnode (by simpa using hf)
    obtain ⟨c, rest, hinputs, -⟩ := hfused.input
    simp [hnil] at hinputs
  have hentries : p.entries (.leave n) = [] := by simp [entries, hf, hnil]
  have hfault : p.leaveFault? n = none := by simp [leaveFault?, hf, hnil]
  rw [hentries, hfault, List.append_nil]
  refine ⟨s, ?_, h⟩
  simp only [wire, hnil, or_true, if_true]
  rfl

variable (hu : n.isUnion = false) (hinputs : ∀ c ∈ n.inputs, ∃ ch, p.channel? c = some ch ∧
  ∀ b ∈ p.flat ch, p.Settled j b.source ∧ p.rank b.source < p.rank n.id)
include hu hinputs

/-- A fused node that is left gets its host. -/
theorem leave_fused_runs (hf : p.fuses n = true) (hnew : n ∉ hostedNodes j) :
    Runs (wire policy p n) s (p.leaveFault? n)
      (p.Shows job (p.layoutAfter policy (j ++ p.entries (.leave n)))) := by
  have hnode := (p.mem_entered.mp (h.begun.subset hn)).1
  have hout := h.outcome?_eq hn
  rw [hf, if_pos rfl] at hout
  obtain ⟨ch, producer, hfused⟩ := p.exists_fused hnode hf
  obtain ⟨c, rest, hcons, hch⟩ := hfused.input
  obtain ⟨ch', hch', hb⟩ := hinputs c (by simp [hcons])
  obtain rfl : ch = ch' := by simpa [hch] using hch'
  have hflat := p.flat_of_not_union hfused.source hfused.not_union
  obtain ⟨hsettled, hrank⟩ := hb ch (by simp [hflat])
  have hne : ch.source ≠ n.id := fun heq => by simp [heq] at hrank
  have hrun : wire policy p n s = resolveChain p n (p.chainOf n.id) s := by
    simp [wire, hu, hcons, bind, EStateM.bind, get_apply, hout]
  exact Runs.congr hrun (resolveChain_runs hn hfused h hsettled hnew hne)

/-- A node with a vertex that is left gets its wires. -/
theorem leave_own_runs (hf : p.fuses n = false) (hnil : n.inputs ≠ []) :
    Runs (wire policy p n) s (p.leaveFault? n)
      (p.Shows job (p.layoutAfter policy (j ++ p.entries (.leave n)))) := by
  have hout := h.outcome?_eq hn
  rw [hf, if_neg (by simp)] at hout
  have hslots : ∀ slot ∈ n.inputs.zipIdx, ∃ ch, p.channel? slot.1 = some ch ∧
      ∀ b ∈ p.flat ch, p.Settled j b.source ∧ p.host b.source ≠ n.id := by
    intro slot hslot
    obtain ⟨ch, hch, hb⟩ := hinputs slot.1 (List.fst_mem_of_mem_zipIdx hslot)
    refine ⟨ch, hch, fun b hbmem => ⟨(hb b hbmem).1, ?_⟩⟩
    -- What hosts the source of a branch ranks no higher than it, and so below the node.
    intro heq
    have hhost := p.rank_host_le b.source
    have hrank := (hb b hbmem).2
    rw [heq] at hhost
    omega
  have hrun : wire policy p n s =
      n.inputs.zipIdx.forM (wireInput policy p n (p.vertexOf n.id)) s := by
    simp [wire, hu, hnil, bind, EStateM.bind, get_apply, hout]
  exact Runs.congr hrun (wireInputs_runs hn hf h hslots)

/-- A node that is left gets its wires or its host, or the fault of leaving it shows. -/
theorem leave_runs (hnew : n ∉ hostedNodes j) : Runs (wire policy p n) s (p.leaveFault? n)
    (p.Shows job (p.layoutAfter policy (j ++ p.entries (.leave n)))) := by
  by_cases hnil : n.inputs = []
  · exact leave_nil_runs h hn hnil
  · cases hf : p.fuses n with
    | true => exact leave_fused_runs h hn hu hinputs hf hnew
    | false => exact leave_own_runs h hn hu hinputs hf hnil

end

end Plan

end Dataflow
