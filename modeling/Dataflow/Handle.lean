import Dataflow.Json.Decode

/-! # Handles

    Entities of a plan or a job graph live in arenas and name each other by
    position. A handle is such a position; its type says which arena it is for.
-/

namespace Dataflow

/-- The arenas that handles point into. -/
inductive Arena where
  | node
  | channel
  | vertex
  | chain

/-- The name of an arena's handles in messages. -/
def Arena.label : Arena → String
  | node => "NodeId"
  | channel => "ChannelId"
  | vertex => "VertexId"
  | chain => "ChainId"

/-- The position of an entity in an arena. -/
structure Handle (arena : Arena) where
  /-- The position. -/
  index : Nat
deriving DecidableEq

/-- Names a plan node. -/
abbrev NodeId := Handle .node

/-- Names a channel of a plan. -/
abbrev ChannelId := Handle .channel

/-- Names a vertex of a job graph. -/
abbrev VertexId := Handle .vertex

/-- Names a fused task before it has a place in a vertex. -/
abbrev ChainId := Handle .chain

namespace Handle

variable {arena : Arena}

/-- Handles are ordered by position. -/
instance : Ord (Handle arena) := ⟨fun a b => compare a.index b.index⟩

instance : Std.TransOrd (Handle arena) where
  eq_swap {a b} := @Std.OrientedCmp.eq_swap Nat compare inferInstance a.index b.index
  isLE_trans {a b c} :=
    @Std.TransCmp.isLE_trans Nat compare inferInstance a.index b.index c.index

/-- The text in messages. -/
def display (h : Handle arena) : String := arena.label ++ "(" ++ toString h.index ++ ")"

/-- The JSON form. -/
def toJson (h : Handle arena) : Json := .ofNat h.index

/-- The handle of a 64-bit number. -/
def ofJson? (j : Json) : Option (Handle arena) := (Json.below? UInt64.size j).map Handle.mk

end Handle

end Dataflow
