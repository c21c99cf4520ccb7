import Dataflow.Proofs.JsonText
import Dataflow.Task.Flat

/-! # Descriptors read from their texts

    A map is read back from its encoding if its keys and its values are, and so
    a descriptor is read back from its own. The text of a descriptor, under which
    flat configurations hold it, says which descriptor it is.

    Main statements:
    - `Descriptor.ofJson?_toJson`: a descriptor is read back from its encoding
    - `Descriptor.setting_inj`: different descriptors have different texts
-/

namespace Dataflow

/-! ## Section 1: Maps -/

namespace Json

/-- A list is read back from encodings of its items if they are. -/
theorem mapM_map_eq_some {α β : Type} {decode : β → Option α} {encode : α → β} {l : List α}
    (h : ∀ a ∈ l, decode (encode a) = some a) : (l.map encode).mapM decode = some l := by
  induction l with
  | nil => rfl
  | cons a l ih =>
    have hrest := ih fun b hb => h b (List.mem_cons_of_mem _ hb)
    rw [List.map_cons, List.mapM_cons, h a (List.mem_cons_self ..), hrest]
    rfl

/-- A map is read back from its encoding if its keys and its values are. -/
theorem map?_ofMap {κ ν : Type} [Ord κ] [Std.TransOrd κ] [Std.LawfulEqOrd κ] [DecidableEq κ]
    {readKey : String → Option κ} {readValue : Json → Option ν} {key : κ → String} {value : ν → Json}
    {m : SortedMap κ ν} (hkey : ∀ e ∈ m.entries, readKey (key e.1) = some e.1)
    (hvalue : ∀ e ∈ m.entries, readValue (value e.2) = some e.2) :
    map? readKey readValue (ofMap key value m) = some m := by
  simp only [map?, ofMap]
  rw [mapM_map_eq_some fun e he => by simp [hkey e he, hvalue e he]]
  exact congrArg some m.ofList_entries

/-- Different values have different texts. -/
theorem render_inj {j j' : Json} (hj : j.Exact) (hj' : j'.Exact) (h : j.render = j'.render) :
    j = j' :=
  text_inj hj hj' (String.ofList_injective h)

end Json

/-! ## Section 2: Descriptors -/

namespace Descriptor

variable {role : Role}

theorem exact_toJson (d : Descriptor role) : d.toJson.Exact := by
  unfold toJson
  apply Json.Exact.object
  intro m hm
  rcases List.mem_cons.mp hm with rfl | hm
  · exact .string _
  · split at hm
    · simp at hm
    · obtain rfl := List.mem_singleton.mp hm
      apply Json.Exact.object
      intro m hm
      obtain ⟨e, -, rfl⟩ := List.mem_map.mp hm
      exact .string _

/-- A descriptor is read back from its encoding, also where its parameters are left out. -/
theorem ofJson?_toJson (d : Descriptor role) : ofJson? d.toJson = some d := by
  obtain ⟨className, params⟩ := d
  by_cases h : params.isEmpty
  · obtain rfl : params = .empty := SortedMap.ext (List.isEmpty_iff.mp h)
    rfl
  · have hparams : Json.map? some Json.string? (Json.ofMap id .string params) = some params :=
      Json.map?_ofMap (fun _ _ => rfl) fun _ _ => rfl
    simp [toJson, ofJson?, h, Json.record?, Json.member?, Json.required?, Json.string?, hparams]

/-- Different descriptors have different texts. -/
theorem setting_inj {d d' : Descriptor role} : d.setting = d'.setting ↔ d = d' := by
  constructor
  · intro h
    have hjson := Json.render_inj d.exact_toJson d'.exact_toJson (Setting.string.inj h)
    have hread := d.ofJson?_toJson
    rw [hjson, d'.ofJson?_toJson] at hread
    exact (Option.some.inj hread).symm
  · exact congrArg setting

end Descriptor

end Dataflow
