import Mathlib.Tactic.FinCases
import Dataflow.Proofs.Building
import Dataflow.Proofs.Eligibility

/-! # Fusion and fan-out

    A node is not fused with a producer that lists several outgoing channels.
    What is read, though, are the inputs. If every input that is read is listed
    where it starts, then a fused node is the only reader of its producer. A
    plan that is built lists all channels; a plan that is made of parts need
    not, for only what is listed is checked.

    Main statements:
    - `unshared_of_listed`: a fused node is the only reader of its producer, if
      the inputs that are read are listed
    - `forked_shared`: a plan that compiles and has two nodes fused one after
      the other that read one producer
-/

namespace Dataflow

namespace Plan

open Lowering

/-! ## Section 1: Readers of a producer -/

/-- No input of a node that is reached starts where the input of a fused node starts, except this input
itself. -/
def Unshared (p : Plan) (r : Compiler.Result) : Prop :=
  ∀ n ∈ p.nodes, ∀ place, r.report.placement? n.id = some (.chained place) →
    ∀ c ∈ n.inputs, ∀ m ∈ p.nodes, p.Reachable m.id → ∀ d ∈ m.inputs,
      p.source? d = p.source? c → d = c

/-- Every input of a node that is reached is among the outgoing channels of the node that it starts
at. -/
def Listed (p : Plan) : Prop :=
  ∀ m ∈ p.nodes, p.Reachable m.id → ∀ d ∈ m.inputs, ∀ dh s, p.channel? d = some dh →
    p.node? dh.source = some s → d ∈ s.outgoing

variable {p : Plan} {job : JobId}

/-- In a plan that is built by calls all channels are listed. -/
theorem Parts.Tied.listed (h : p.Tied) : p.Listed := by
  intro m _ _ d _ dh s hdh hs
  exact h.mem_outgoing hdh hs

/-- If the inputs that are read are listed, a fused node is the only reader of its producer. -/
theorem unshared_of_listed {c : Compiler} {r : Compiler.Result} (h : c.compile job p = .ok r)
    (hlisted : p.Listed) : p.Unshared r := by
  obtain ⟨lead, hfault, -, rfl⟩ := answer_of_ok h
  have hr : p.Places (p.answer c.policy job lead).report := places_answer lead
  intro n hn place hplace d hd m hm hreach e he hsame
  obtain ⟨hfused, -⟩ := (hr.chained_iff (p.node?_of_mem hn) place).mp hplace
  obtain ⟨c', ch, producer, hinputs, hch, hfusion, -⟩ := exists_sole hfault hfused
  obtain rfl : d = c' := by simpa [hinputs] using hd
  obtain ⟨eh, heh, -⟩ := p.exists_channel (p.node?_of_mem hm) he
  have hsource : eh.source = ch.source := by simpa [Parts.source?, hch, heh] using hsame
  have hnreach := (p.mem_entered.mp (p.mem_fusedNodes.mp hfused).1).2.2
  -- Both channels are among the outgoing ones of the producer, and there is only one.
  have hdout := hlisted n hn hnreach d hd ch producer hch hfusion.source
  have heout := hlisted m hm hreach e he eh producer heh (hsource ▸ hfusion.source)
  obtain ⟨x, hout⟩ := List.length_eq_one_iff.mp hfusion.outgoing
  rw [hout, List.mem_singleton] at hdout heout
  rw [hdout, heout]

/-- In the plan that joins two sources the formatting alone reads what is counted. -/
theorem wordCount_unshared : ∃ r, Compiler.standard.compile .zero wordCount = .ok r ∧
    wordCount.Unshared r := by
  obtain ⟨r, hr⟩ := wordCount_compiles .standard .zero
  refine ⟨r, hr, unshared_of_listed hr ?_⟩
  intro m _ _ d _ dh s hdh hs
  have hmem : dh ∈ wordCount.channels.toList := Array.mem_toList_iff.mpr (Array.mem_of_getElem? hdh)
  obtain rfl := wordCount.channel_id_eq hdh
  fin_cases hmem <;> exact Option.some.inj hs ▸ List.mem_singleton_self _

/-! ## Section 2: A producer with two readers -/

/-- A source lists the channel to the first of two operators, and both read it. -/
def forkedParts : Parts where
  jobName := "forked"
  nodes := #[
    { (({ name := "src", kind := .source ⟨"S", .empty⟩ } : NodeDraft).toNode ⟨0⟩) with
      outgoing := [⟨0⟩] },
    { (({ name := "a", kind := .singleInput .map none } : NodeDraft).toNode ⟨1⟩) with
      inputs := [⟨0⟩], outgoing := [⟨2⟩] },
    { (({ name := "b", kind := .singleInput .map none } : NodeDraft).toNode ⟨2⟩) with
      inputs := [⟨1⟩], outgoing := [⟨3⟩] },
    { (({ name := "outA", kind := .sink } : NodeDraft).toNode ⟨3⟩) with inputs := [⟨2⟩] },
    { (({ name := "outB", kind := .sink } : NodeDraft).toNode ⟨4⟩) with inputs := [⟨3⟩] }]
  channels := #[
    { ship := .forward, serializer := ⟨"S", .empty⟩, id := ⟨0⟩, source := ⟨0⟩, target := ⟨1⟩ },
    { ship := .forward, serializer := ⟨"S", .empty⟩, id := ⟨1⟩, source := ⟨0⟩, target := ⟨2⟩ },
    { ship := .forward, serializer := ⟨"S", .empty⟩, id := ⟨2⟩, source := ⟨1⟩, target := ⟨3⟩ },
    { ship := .forward, serializer := ⟨"S", .empty⟩, id := ⟨3⟩, source := ⟨2⟩, target := ⟨4⟩ }]
  sinks := [⟨3⟩, ⟨4⟩]

theorem forked_consistent : forkedParts.Consistent :=
  forkedParts.inconsistency?_eq_none_iff.mp (by decide)

theorem forked_listing : forkedParts.listing = .ok [⟨4⟩, ⟨3⟩, ⟨2⟩, ⟨1⟩, ⟨0⟩] := by cbv

/-- The plan of these parts. -/
def forked : Plan :=
  { forkedParts with
    consistent := forked_consistent
    acyclic := Parts.acyclic_of_listing forked_consistent forked_listing }

theorem forked_accepted : ofParts forkedParts = .ok forked := forked.ofParts_toParts forked_listing

theorem forked_compiles (c : Compiler) (job : JobId) : ∃ r, c.compile job forked = .ok r := by
  have hfault : forked.schedule.findSome? forked.callbackFault? = none := by cbv
  have hsink : forked.nodes[3] ∈ forked.ownNodes :=
    forked.sink_mem_ownNodes rfl rfl (List.mem_cons_self ..)
  exact compiles_of_faultless c job hfault hsink

/-- The parts make a plan, and it compiles, but both operators are fused into the vertex of
the source. -/
theorem forked_shared : ofParts forkedParts = .ok forked ∧
    ∃ r a b, Compiler.standard.compile .zero forked = .ok r ∧
      r.report.placement? ⟨1⟩ = some (.chained a) ∧ r.report.placement? ⟨2⟩ = some (.chained b) ∧
      a.host = b.host ∧ ¬ forked.Unshared r := by
  obtain ⟨r, hr⟩ := forked_compiles .standard .zero
  obtain ⟨lead, -, -, rfl⟩ := answer_of_ok hr
  have hp : forked.Places (forked.answer Compiler.standard.policy .zero lead).report :=
    places_answer lead
  have ha : forked.Fused forked.nodes[1] forked.channels[0] forked.nodes[0] :=
    ⟨⟨_, _, _, rfl, rfl⟩, ⟨⟨0⟩, [], rfl, rfl⟩, rfl, rfl, rfl, rfl, rfl, rfl, rfl⟩
  have hb : forked.Fused forked.nodes[2] forked.channels[1] forked.nodes[0] :=
    ⟨⟨_, _, _, rfl, rfl⟩, ⟨⟨1⟩, [], rfl, rfl⟩, rfl, rfl, rfl, rfl, rfl, rfl, rfl⟩
  have hareach : forked.Reachable forked.nodes[1].id :=
    Reachable.of_input (n := forked.nodes[3]) (c := ⟨2⟩) (.sink (List.mem_cons_self ..)) rfl
      (List.mem_singleton_self _) rfl rfl
  have hbreach : forked.Reachable forked.nodes[2].id :=
    Reachable.of_input (n := forked.nodes[4]) (c := ⟨3⟩)
      (.sink (List.mem_cons_of_mem _ (List.mem_singleton_self _))) rfl (List.mem_singleton_self _)
      rfl rfl
  have haplace := (hp.of_fused (ha.mem_fusedNodes rfl hareach)).2
  have hbplace := (hp.of_fused (hb.mem_fusedNodes rfl hbreach)).2
  refine ⟨forked_accepted, _, _, _, hr, haplace, hbplace, ?_, fun hunshared => ?_⟩
  · -- Both have the host of their producer, the source.
    have hhost : forked.host forked.nodes[1].id = forked.host forked.nodes[2].id :=
      (ha.host_eq rfl).trans (hb.host_eq rfl).symm
    exact congrArg forked.vertexOf hhost
  · have heq := hunshared forked.nodes[1] (Array.getElem_mem _) _ haplace ⟨0⟩
      (List.mem_singleton_self _) forked.nodes[2] (Array.getElem_mem _) hbreach ⟨1⟩
      (List.mem_singleton_self _) rfl
    exact absurd heq (by decide)

end Plan

end Dataflow
