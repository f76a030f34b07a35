import GroupedExtrema.Accumulator
import GroupedExtrema.AccumulatorSet
import GroupedExtrema.Column.Basic
import GroupedExtrema.Column.Batch
import GroupedExtrema.Column.Bitmap
import GroupedExtrema.Config
import GroupedExtrema.DataType
import GroupedExtrema.Decimal.Conversion
import GroupedExtrema.Decimal.Shortest
import GroupedExtrema.Decimal.Text
import GroupedExtrema.Error
import GroupedExtrema.Fold.Boolean
import GroupedExtrema.Fold.Float
import GroupedExtrema.Fold.Integer
import GroupedExtrema.Fold.Interval
import GroupedExtrema.Ieee.Basic
import GroupedExtrema.Ieee.Rounding
import GroupedExtrema.Interval
import GroupedExtrema.Json.Blank
import GroupedExtrema.Json.Config
import GroupedExtrema.Json.DataType
import GroupedExtrema.Json.Error
import GroupedExtrema.Json.Number
import GroupedExtrema.Json.Record
import GroupedExtrema.Json.Scalar
import GroupedExtrema.Json.Skip
import GroupedExtrema.Json.StringLiteral
import GroupedExtrema.Json.Text
import GroupedExtrema.Json.Variant
import GroupedExtrema.Kernel
import GroupedExtrema.Layout
import GroupedExtrema.Report
import GroupedExtrema.Scalar
import GroupedExtrema.Storage.Budget
import GroupedExtrema.Storage.ChunkStore
import GroupedExtrema.Storage.Ledger
import GroupedExtrema.Storage.SlotTable
import GroupedExtrema.Storage.ValidityMap
import GroupedExtrema.Text.Printable
import GroupedExtrema.Text.Quoted
import GroupedExtrema.Proofs.Addressing
import GroupedExtrema.Proofs.ChunkStore
import GroupedExtrema.Proofs.Extremum
import GroupedExtrema.Proofs.Fold.Integer
import GroupedExtrema.Proofs.Fold.Boolean
import GroupedExtrema.Proofs.Fold.Float
import GroupedExtrema.Proofs.Fold.Interval
import GroupedExtrema.Proofs.Column.Bitmap
import GroupedExtrema.Proofs.Column.Rows
import GroupedExtrema.Proofs.Kernel
import GroupedExtrema.Proofs.SlotTable
import GroupedExtrema.Proofs.Slot
import GroupedExtrema.Proofs.Accumulate
import GroupedExtrema.Proofs.Run
import GroupedExtrema.Proofs.Kernels.Integer
import GroupedExtrema.Proofs.Kernels.Boolean
import GroupedExtrema.Proofs.Kernels.Float
import GroupedExtrema.Proofs.Kernels.Interval
import GroupedExtrema.Proofs.Growth
import GroupedExtrema.Proofs.Regions
import GroupedExtrema.Proofs.Accounting
import GroupedExtrema.Proofs.Alike
import GroupedExtrema.Proofs.RowSets
import GroupedExtrema.Proofs.SetAccounting
import GroupedExtrema.Proofs.Outcome
import GroupedExtrema.Proofs.SetOutcome
import GroupedExtrema.Proofs.SetProduct
import GroupedExtrema.Proofs.SetFailure
import GroupedExtrema.Proofs.LogicalRows
import GroupedExtrema.Proofs.Bounds
import GroupedExtrema.Proofs.Ledger
import GroupedExtrema.Proofs.AccumulateFailure
import GroupedExtrema.Proofs.Json.Grammar
import GroupedExtrema.Proofs.Json.Skip
import GroupedExtrema.Proofs.Json.Number
import GroupedExtrema.Proofs.Json.Reader
import GroupedExtrema.Proofs.Json.Record
import GroupedExtrema.Proofs.Json.Config
import GroupedExtrema.Proofs.Json.RoundTrip
import GroupedExtrema.Proofs.Column.Bits
import GroupedExtrema.Proofs.Room
import GroupedExtrema.Proofs.Reset
import GroupedExtrema.Proofs.Extension
import GroupedExtrema.Proofs.GrowthOrder
import GroupedExtrema.Proofs.StoreLists
import GroupedExtrema.Proofs.StorePool
import GroupedExtrema.Proofs.Kernels.SignedZero
import GroupedExtrema.Proofs.Column.Options
import GroupedExtrema.Proofs.SetCreation
import GroupedExtrema.Proofs.ValiditySet
import GroupedExtrema.Proofs.Ieee.Rounding
import GroupedExtrema.Proofs.Ieee.Arithmetic
import GroupedExtrema.Proofs.Decimal
import GroupedExtrema.Proofs.Kernels.Decimal
import GroupedExtrema.Proofs.Ordinals
import GroupedExtrema.Proofs.Column.Words
