import GroupedExtrema.Storage.Budget

/-!
# Configuration

What a set of accumulators is made from: how slots are divided into chunks, how much memory they may
take, and which aggregates are kept.
-/

namespace GroupedExtrema

/-- The settings shared by all accumulators of a set. -/
structure Config where
  /-- How slots are divided into chunks; the ordinals must be divided alike. -/
  layout : ChunkLayout
  /-- The most bytes that all chunks may take together; no limit if absent. -/
  memoryLimit : Option UInt64
deriving DecidableEq

namespace Config

/-- The default layout and no memory limit. -/
def default : Config := ⟨.default, none⟩

instance : Inhabited Config := ⟨default⟩

/-- The budget of a set with these settings. -/
def budget (c : Config) : Budget := .ofLimit c.memoryLimit

end Config

/-- One aggregate: the extremum of one input column. -/
structure AggregateSpec where
  /-- Index of the input column within a batch. -/
  input : UInt64
  extremum : Extremum
  /-- The type of the input column. -/
  datatype : DataType
deriving DecidableEq, Inhabited

/-- What hands out ordinals, as far as slots depend on it. A set that is created asks for the number
of chunks again for each of its accumulators. The source is assumed to hand out nothing meanwhile,
so that the number is one and the same. -/
structure OrdinalSource where
  /-- How the ordinals are divided into chunks. -/
  layout : ChunkLayout
  /-- Number of chunks of ordinals so far. -/
  chunks : Nat
deriving DecidableEq

end GroupedExtrema
