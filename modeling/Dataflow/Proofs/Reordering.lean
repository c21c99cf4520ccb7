import Mathlib.Logic.Equiv.Fintype
import Dataflow.Proofs.Retracing

/-! # Arenas in another order

    The handles of a plan say where its nodes and channels stand, and nothing
    about the job. If both arenas are put in another order, and everything that
    names a node or a channel is renamed to match, then the walk goes the same
    way step by step: the same vertices are made in the same order, with the
    same configurations and wires, and where a step fails the same step fails.

    Main statements:
    - `Mirrors.retraces`: a plan under other handles is walked alike
    - `compile_reorder`: plans whose arenas are in another order are accepted
      and answered alike
-/

namespace Dataflow

open Lowering

namespace Plan

/-! ## Section 1: Mirrored plans -/

/-- A plan is another one under new handles, and the walks start from the same sinks in the same
order. -/
structure Mirrors (ρ : Renaming) (p p' : Plan) : Prop extends Carries ρ p.toParts p'.toParts where
  /-- The sinks are renamed. -/
  sinks : p'.sinks = p.sinks.map ρ.node
  /-- The jobs have one name. -/
  jobName : p'.jobName = p.jobName
  /-- The jobs have the same settings. -/
  config : p'.config = p.config
  /-- The types of the instances agree. -/
  instanceType : p'.instanceType = p.instanceType

variable {ρ : Renaming} {p p' : Plan}

/-! ## Section 2: The walk over a mirrored plan -/

theorem fresh_map {α β : Type} [DecidableEq α] [DecidableEq β] {f : α → β}
    (hf : Function.Injective f) (done l : List α) :
    fresh (done.map f) (l.map f) = (fresh done l).map f := by
  induction l generalizing done with
  | nil => rfl
  | cons x rest ih =>
    have hconcat := ih (done ++ [x])
    rw [List.map_append, List.map_singleton] at hconcat
    simp only [List.map_cons, fresh, List.mem_map_of_injective hf, ih, hconcat]
    split <;> rfl

namespace Mirrors

variable (h : Mirrors ρ p p')
include h

theorem schedule : p'.schedule = p.schedule.map (Callback.rename ρ) := by
  have hcallbacks : p'.sinks.flatMap p'.callbacks =
      (p.sinks.flatMap p.callbacks).map (Callback.rename ρ) := by
    rw [h.sinks, List.flatMap_map, List.map_flatMap]
    exact List.flatMap_congr fun id _ => h.callbacks id
  rw [Plan.schedule, Plan.schedule, hcallbacks]
  exact fresh_map (Callback.rename_injective ρ) [] _

omit h in
theorem carry_rename (ρ : Renaming) : Entry.carry ρ (Channel.rename ρ) = Entry.rename ρ := by
  funext e
  cases e <;> rfl

/-- A plan under other handles is walked alike. -/
theorem retraces : Retraces ρ (Channel.rename ρ) p p' where
  shipment _ := rfl
  source _ := rfl
  node id := by
    rw [h.node?]
    cases p.node? id with
    | none => exact .none
    | some n => exact .some ⟨rfl, fun _ => rfl⟩
  schedule := h.schedule
  fuses _ hn _ := h.fuses hn
  host := h.host
  entries cb hcb _ := by rw [carry_rename, h.entries hcb]
  enterFault? _ hn _ := h.enterFault? hn
  leaveFault? _ hn _ := h.leaveFault? hn
  jobName := h.jobName
  config := h.config
  instanceType := h.instanceType

end Mirrors

end Plan

/-! ## Section 3: Arenas in another order -/

/-- The handles below a bound are the positions below it. -/
def Handle.below (arena : Arena) (size : Nat) :
    Fin size ≃ { id : Handle arena // id.index < size } where
  toFun i := ⟨⟨i⟩, i.isLt⟩
  invFun id := ⟨id.1.index, id.2⟩
  left_inv _ := rfl
  right_inv _ := rfl

/-- The handles of elements that have been put in another order; handles of nothing stay. -/
def Handle.moved {arena : Arena} {size : Nat} (σ : Equiv.Perm (Fin size)) :
    Equiv.Perm (Handle arena) :=
  σ.extendDomain (Handle.below arena size)

theorem Handle.moved_mk {arena : Arena} {size : Nat} (σ : Equiv.Perm (Fin size)) (i : Fin size) :
    Handle.moved σ (⟨i⟩ : Handle arena) = ⟨σ i⟩ :=
  Equiv.Perm.extendDomain_apply_image σ (Handle.below arena size) i

theorem Handle.moved_of_le {arena : Arena} {size : Nat} (σ : Equiv.Perm (Fin size))
    {id : Handle arena} (h : size ≤ id.index) : Handle.moved σ id = id :=
  Equiv.Perm.extendDomain_apply_not_subtype σ (Handle.below arena size) (Nat.not_lt.mpr h)

namespace Plan

/-- The elements in another order: each goes to the position that the permutation says. -/
def reordered {α : Type} (xs : Array α) (σ : Equiv.Perm (Fin xs.size)) : Array α :=
  Array.ofFn fun i => xs[σ.symm i]

/-- What a handle named, the moved handle names. -/
theorem getElem?_reordered {α : Type} {arena : Arena} (xs : Array α)
    (σ : Equiv.Perm (Fin xs.size)) (id : Handle arena) :
    (reordered xs σ)[(Handle.moved σ id).index]? = xs[id.index]? := by
  by_cases hid : id.index < xs.size
  · have hmoved : (Handle.moved σ id).index = σ ⟨id.index, hid⟩ :=
      congrArg Handle.index (Handle.moved_mk σ ⟨id.index, hid⟩)
    simp [reordered, hmoved, hid]
  · have hle : xs.size ≤ id.index := Nat.not_lt.mp hid
    rw [Handle.moved_of_le σ hle, Array.getElem?_eq_none hle,
      Array.getElem?_eq_none (by simpa [reordered] using hle)]

namespace Parts

variable (q : Parts) (σ : Equiv.Perm (Fin q.nodes.size)) (τ : Equiv.Perm (Fin q.channels.size))

/-- The handles for arenas in another order. -/
def reordering : Renaming := ⟨Handle.moved σ, Handle.moved τ⟩

/-- The parts with both arenas in another order, and everything that names a node or a channel
renamed to match. The sinks keep their order. -/
def reorder : Parts :=
  { q with
    nodes := (reordered q.nodes σ).map (Node.rename (q.reordering σ τ))
    channels := (reordered q.channels τ).map (Channel.rename (q.reordering σ τ))
    sinks := q.sinks.map (q.reordering σ τ).node }

theorem carries_reorder : Carries (q.reordering σ τ) q (q.reorder σ τ) where
  node? id := by
    rw [node?, reorder, Array.getElem?_map]
    exact congrArg _ (getElem?_reordered q.nodes σ id)
  channel? id := by
    rw [channel?, reorder, Array.getElem?_map]
    exact congrArg _ (getElem?_reordered q.channels τ id)

end Parts

/-- The order of the arenas does not matter. The parts of a plan with nodes and channels in another
order make a plan, and every compiler answers it as it answers the first one: with the same graph
and, for each node, the same placement, or with the same error for the same node. -/
theorem compile_reorder (p : Plan) (σ : Equiv.Perm (Fin p.nodes.size))
    (τ : Equiv.Perm (Fin p.channels.size)) :
    ∃ p', ofParts (p.toParts.reorder σ τ) = .ok p' ∧
      ∀ (c : Compiler) (job job' : JobId),
        SameAnswer (p.toParts.reordering σ τ) p (c.compile job p) (c.compile job' p') := by
  have hcarries := p.toParts.carries_reorder σ τ
  obtain ⟨p', hok, hparts⟩ := hcarries.exists_plan fun s hs => List.mem_map.mp hs
  rw [← hparts] at hcarries
  have hmirrors : Mirrors (p.toParts.reordering σ τ) p p' := {
    hcarries with
    sinks := by rw [hparts]; rfl
    jobName := by rw [hparts]; rfl
    config := by rw [hparts]; rfl
    instanceType := by rw [hparts]; rfl }
  exact ⟨p', hok, hmirrors.retraces.compile⟩

end Plan

end Dataflow
