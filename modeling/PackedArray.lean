import PackedArray.Bytes
import PackedArray.Tag
import PackedArray.Layout.Basic
import PackedArray.Error
import PackedArray.Float.Format
import PackedArray.Float.Double
import PackedArray.Scalar
import PackedArray.Numeric
import PackedArray.Storage.Region
import PackedArray.Storage.Quota
import PackedArray.Shape
import PackedArray.NullBitmap
import PackedArray.Layout.Packing
import PackedArray.NdArray.Basic
import PackedArray.NdArray.Build
import PackedArray.NdArray.Source
import PackedArray.NdArray.Read
import PackedArray.NdArray.FlatForm
import PackedArray.Operator.Combiner
import PackedArray.Operator.Finalizer
import PackedArray.Operator.Reduction
import PackedArray.Operator.Scaling
import PackedArray.Registry.HandleTable
import PackedArray.Registry.Status
import PackedArray.Registry.Call
import PackedArray.Registry.Basic
import PackedArray.Registry.Buffer
import PackedArray.Workload
import PackedArray.Proofs.Outcome
import PackedArray.Proofs.Packing
import PackedArray.Proofs.PackedData
import PackedArray.Proofs.Bits
import PackedArray.Proofs.Bitmap
import PackedArray.Proofs.Walk
import PackedArray.Proofs.Reading
import PackedArray.Proofs.Shape
import PackedArray.Proofs.Construction
import PackedArray.Proofs.Sources
import PackedArray.Proofs.Elements
import PackedArray.Proofs.PackedBuffer
import PackedArray.Proofs.Decoding
import PackedArray.Proofs.Obtained
import PackedArray.Proofs.WellFormed
import PackedArray.Proofs.FlatForm
import PackedArray.Proofs.Canonical
import PackedArray.Proofs.Readable
import PackedArray.Proofs.Handles
import PackedArray.Proofs.HandleRuns
import PackedArray.Proofs.Refusals
import PackedArray.Proofs.CallRuns
import PackedArray.Proofs.Representation
import PackedArray.Proofs.NullFlag
import PackedArray.Proofs.Grammar
import PackedArray.Proofs.FlatLayout
import PackedArray.Proofs.Sizing
import PackedArray.Proofs.ElementWise
import PackedArray.Proofs.Rebuilding
import PackedArray.Proofs.Zeros
import PackedArray.Proofs.Folding
import PackedArray.Proofs.Integers
import PackedArray.Proofs.IntegerDivision
import PackedArray.Proofs.Rounding
import PackedArray.Proofs.WholeNumbers
import PackedArray.Proofs.FloatPolicy
import PackedArray.Proofs.IntegerProduct
import PackedArray.Proofs.Machine.Basic
import PackedArray.Proofs.Machine.Shape
import PackedArray.Proofs.Machine.ItemCount
import PackedArray.Proofs.Machine.Reading
import PackedArray.Proofs.Machine.Building
import PackedArray.Proofs.Machine.FlatForm
import PackedArray.Proofs.Machine.Operators
import PackedArray.Proofs.Machine.Calls
import PackedArray.Proofs.Buffers
import PackedArray.Proofs.SlotReuse
import PackedArray.Proofs.Storing
import PackedArray.Proofs.Machine.Fetching
import PackedArray.Proofs.Machine.Bitmap
import PackedArray.Proofs.Pieces
import PackedArray.Proofs.Machine.Block
