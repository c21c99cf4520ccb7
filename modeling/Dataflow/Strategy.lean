import Dataflow.Json.Decode

/-! # Strategies

    What the optimizer decided for channels and operators: how records are
    shipped, how an input is prepared and buffered, and which algorithm an
    operator runs. Each enumeration has an encoded name for every value, and
    some have a second text for messages.
-/

namespace Dataflow

/-! ## Section 1: Shipping -/

/-- How records are routed between producer and consumer subtasks. -/
inductive ShipStrategy where
  /-- Not set by the optimizer; never valid on a channel that is wired. -/
  | unset
  | forward
  | partitionLocalHash
  | partitionRandom
  | broadcast
  | partitionHash
  | partitionRange
deriving DecidableEq

namespace ShipStrategy

/-- Every value. -/
def all : List ShipStrategy :=
  [unset, forward, partitionLocalHash, partitionRandom, broadcast, partitionHash, partitionRange]

/-- The encoded name. -/
def name : ShipStrategy → String
  | unset => "None"
  | forward => "Forward"
  | partitionLocalHash => "PartitionLocalHash"
  | partitionRandom => "PartitionRandom"
  | broadcast => "Broadcast"
  | partitionHash => "PartitionHash"
  | partitionRange => "PartitionRange"

/-- The text in messages and flat configurations. -/
def display : ShipStrategy → String
  | unset => "NONE"
  | forward => "FORWARD"
  | partitionLocalHash => "PARTITION_LOCAL_HASH"
  | partitionRandom => "PARTITION_RANDOM"
  | broadcast => "BROADCAST"
  | partitionHash => "PARTITION_HASH"
  | partitionRange => "PARTITION_RANGE"

/-- The JSON form. -/
def toJson (s : ShipStrategy) : Json := .string s.name

/-- The value with an encoded name. -/
def ofJson? : Json → Option ShipStrategy := Json.named? all name

end ShipStrategy

/-! ## Section 2: Preparation of an input -/

/-- What happens to an input before the operator reads it. -/
inductive LocalStrategy where
  | nothing
  | sort
  | combiningSort
deriving DecidableEq

namespace LocalStrategy

/-- Every value. -/
def all : List LocalStrategy := [nothing, sort, combiningSort]

/-- The encoded name. -/
def name : LocalStrategy → String
  | nothing => "None"
  | sort => "Sort"
  | combiningSort => "CombiningSort"

/-- The text in messages and flat configurations. -/
def display : LocalStrategy → String
  | nothing => "NONE"
  | sort => "SORT"
  | combiningSort => "COMBININGSORT"

/-- The JSON form. -/
def toJson (s : LocalStrategy) : Json := .string s.name

/-- The value with an encoded name. -/
def ofJson? : Json → Option LocalStrategy := Json.named? all name

end LocalStrategy

/-! ## Section 3: Buffering -/

/-- The buffer of a channel. -/
inductive TempMode where
  | nothing
  | pipelineBreaker
  | cached
  | cachingPipelineBreaker
deriving DecidableEq

namespace TempMode

/-- Every value. -/
def all : List TempMode := [nothing, pipelineBreaker, cached, cachingPipelineBreaker]

/-- The encoded name. -/
def name : TempMode → String
  | nothing => "None"
  | pipelineBreaker => "PipelineBreaker"
  | cached => "Cached"
  | cachingPipelineBreaker => "CachingPipelineBreaker"

/-- Whether the buffer holds the input back until all of it has arrived. -/
def breaksPipeline : TempMode → Bool
  | pipelineBreaker | cachingPipelineBreaker => true
  | nothing | cached => false

/-- Whether the buffered records can be read again. -/
def isReplayable : TempMode → Bool
  | cached | cachingPipelineBreaker => true
  | nothing | pipelineBreaker => false

/-- The JSON form. -/
def toJson (m : TempMode) : Json := .string m.name

/-- The value with an encoded name. -/
def ofJson? : Json → Option TempMode := Json.named? all name

end TempMode

/-! ## Section 4: Drivers -/

/-- The algorithm that an operator runs. -/
inductive DriverStrategy where
  /-- Not set by the optimizer. -/
  | unset
  | map
  | flatMap
  | partialGroup
  | sortedGroup
  | allGroup
  | merge
  | hybridHashBuildFirst
  | hybridHashBuildSecond
  | coGroup
  | nestedLoopBlockedOuterFirst
  | nestedLoopBlockedOuterSecond
  | nestedLoopStreamedOuterFirst
  | nestedLoopStreamedOuterSecond
deriving DecidableEq

namespace DriverStrategy

/-- Every value. -/
def all : List DriverStrategy :=
  [unset, map, flatMap, partialGroup, sortedGroup, allGroup, merge, hybridHashBuildFirst,
    hybridHashBuildSecond, coGroup, nestedLoopBlockedOuterFirst, nestedLoopBlockedOuterSecond,
    nestedLoopStreamedOuterFirst, nestedLoopStreamedOuterSecond]

/-- The encoded name, which is also the text in messages. -/
def name : DriverStrategy → String
  | unset => "None"
  | map => "Map"
  | flatMap => "FlatMap"
  | partialGroup => "PartialGroup"
  | sortedGroup => "SortedGroup"
  | allGroup => "AllGroup"
  | merge => "Merge"
  | hybridHashBuildFirst => "HybridHashBuildFirst"
  | hybridHashBuildSecond => "HybridHashBuildSecond"
  | coGroup => "CoGroup"
  | nestedLoopBlockedOuterFirst => "NestedLoopBlockedOuterFirst"
  | nestedLoopBlockedOuterSecond => "NestedLoopBlockedOuterSecond"
  | nestedLoopStreamedOuterFirst => "NestedLoopStreamedOuterFirst"
  | nestedLoopStreamedOuterSecond => "NestedLoopStreamedOuterSecond"

/-- The runtime's driver for the algorithm in a task of its own. -/
def taskDriver? : DriverStrategy → Option String
  | unset => none
  | map => some "MapDriver"
  | flatMap => some "FlatMapDriver"
  | partialGroup => some "CombineDriver"
  | sortedGroup => some "ReduceDriver"
  | allGroup => some "AllReduceDriver"
  | merge | hybridHashBuildFirst | hybridHashBuildSecond => some "MatchDriver"
  | coGroup => some "CoGroupDriver"
  | nestedLoopBlockedOuterFirst | nestedLoopBlockedOuterSecond | nestedLoopStreamedOuterFirst
  | nestedLoopStreamedOuterSecond => some "CrossDriver"

/-- The runtime's driver for the algorithm inside the task of its producer, which pushes the records
to it one at a time. -/
def chainDriver? : DriverStrategy → Option String
  | map => some "ChainedMapDriver"
  | flatMap => some "ChainedFlatMapDriver"
  | partialGroup => some "ChainedCombineDriver"
  | _ => none

/-- The number of inputs that the algorithm reads. -/
def inputCount : DriverStrategy → Nat
  | unset => 0
  | map | flatMap | partialGroup | sortedGroup | allGroup => 1
  | merge | hybridHashBuildFirst | hybridHashBuildSecond | coGroup | nestedLoopBlockedOuterFirst
  | nestedLoopBlockedOuterSecond | nestedLoopStreamedOuterFirst
  | nestedLoopStreamedOuterSecond => 2

/-- The JSON form. -/
def toJson (d : DriverStrategy) : Json := .string d.name

/-- The value with an encoded name. -/
def ofJson? : Json → Option DriverStrategy := Json.named? all name

end DriverStrategy

/-! ## Section 5: Names tell values apart -/

theorem ShipStrategy.ofJson?_toJson (s : ShipStrategy) : ofJson? s.toJson = some s := by
  cases s <;> decide

theorem LocalStrategy.ofJson?_toJson (s : LocalStrategy) : ofJson? s.toJson = some s := by
  cases s <;> decide

theorem TempMode.ofJson?_toJson (m : TempMode) : ofJson? m.toJson = some m := by
  cases m <;> decide

theorem DriverStrategy.ofJson?_toJson (d : DriverStrategy) : ofJson? d.toJson = some d := by
  cases d <;> decide

/-- Only drivers that read one input run inside their producer. -/
theorem DriverStrategy.inputCount_of_chainDriver? {d : DriverStrategy} {text : String}
    (h : d.chainDriver? = some text) : d.inputCount = 1 := by
  cases d <;> simp_all [chainDriver?, inputCount]

end Dataflow
