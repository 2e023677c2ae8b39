import PackedArray.NdArray.Build

/-!
# PackedArray.NdArray.FlatForm

The flat form of an array:

1. four words — the total length shifted left by two, the dimension count,
   the data offset, and the tag;
2. a word for each extent, then a word for each lower bound;
3. the null bitmap, only if the data offset is not zero;
4. zeros up to a multiple of eight bytes;
5. the packed elements.

All words are little-endian.  A data offset that is not zero tells where the
packed elements start; otherwise they follow the words directly.

`NdArray.encode` writes the form.  `NdArray.decode` trusts nothing: it checks
every field against the buffer, and for numeric tags the length of the data
against the number of present items.
-/

namespace PackedArray

/-- The greatest total length that the length word can hold. -/
def maxFlatSize : Nat := 0x3fffffff

/-! ## encoding -/

namespace NdArray

/-- Where the packed elements start in the flat form. -/
def dataStart (a : NdArray) : Nat :=
  if a.hasNulls then a.dataOffset.toInt.toNat else plainHeaderSize a.dims.length

/-- The words of the header, for a flat form of `total` bytes. -/
def headerWords (a : NdArray) (total : Nat) : List UInt8 :=
  leBytes 4 (4 * total) ++ leBytes 4 a.ndim.toUInt32.toNat ++
    leBytes 4 a.dataOffset.toUInt32.toNat ++ leBytes 4 a.tag.code.toNat ++
    a.dims.flatMap (fun d => leBytes 4 d.toUInt32.toNat) ++
    a.lbounds.flatMap (fun b => leBytes 4 b.toUInt32.toNat)

/-- The bytes of the null bitmap, if there is one. -/
def bitmapBytes (a : NdArray) : List UInt8 :=
  match a.nulls with
  | some bitmap => bitmap.bytes
  | none => []

/-- The flat form of an array, if the length word can hold its length. -/
def encode (a : NdArray) : Except ArrayError (List UInt8) :=
  let total := a.dataStart + a.data.length
  if maxFlatSize < total then .error (.sizeExceeded maxFlatSize)
  else .ok (fit a.dataStart (a.headerWords total ++ a.bitmapBytes) ++ a.data)

end NdArray

/-! ## decoding -/

/-- What the words of a flat form say. -/
@[ext]
structure FlatHeader where
  /-- The number of dimensions. -/
  ndim : Nat
  dataOffset : Int32
  tag : Tag
  dims : List Int32
  lbounds : List Int32
  deriving DecidableEq, Repr

namespace FlatHeader

/-- The signed words from byte `pos` on. -/
def signedWords (buf : List UInt8) (pos count : Nat) : List Int32 :=
  (List.range count).map fun i => (wordAt buf (pos + 4 * i)).toInt32

/-- Read the words at the front of a flat form. -/
def read (buf : List UInt8) : Except ArrayError FlatHeader :=
  let ndim := (wordAt buf 4).toNat
  if buf.length < fixedHeaderSize then .error (.malformed .headerTruncated)
  else if (wordAt buf 0).toNat / 4 ≠ buf.length then .error (.malformed .totalLength)
  else if maxDimensions < ndim then .error (.malformed .dimensionCount)
  else if buf.length < fixedHeaderSize + 8 * ndim then .error (.malformed .headerTruncated)
  else .ok {
    ndim
    dataOffset := (wordAt buf 8).toInt32
    tag := ⟨wordAt buf 12⟩
    dims := signedWords buf fixedHeaderSize ndim
    lbounds := signedWords buf (fixedHeaderSize + 4 * ndim) ndim }

/-- The null bitmap over `n` items and the start of the data. -/
def placement (h : FlatHeader) (buf : List UInt8) (n : Nat) :
    Except ArrayError (Option NullBitmap × Nat) :=
  if h.dataOffset = 0 then .ok (none, plainHeaderSize h.ndim)
  else
    let start := nullableHeaderSize h.ndim n
    if h.ndim = 0 ∨ h.dataOffset.toInt ≠ start then .error (.malformed .dataOffset)
    else
      match NullBitmap.ofBytes? (buf.drop (fixedHeaderSize + 8 * h.ndim)) n with
      | none => .error (.malformed .bitmapTruncated)
      | some bitmap => .ok (some bitmap, start)

end FlatHeader

/-- The number of present items among `n`. -/
def presentCount (n : Nat) (nulls : Option NullBitmap) : Nat :=
  match nulls with
  | some bitmap => n - bitmap.countNulls
  | none => n

/-- The data length that a tag demands of `present` items, if it is
numeric. -/
def Tag.dataSize? (t : Tag) (present : Nat) : Option Nat :=
  t.layout?.map fun l => present * l.align.pad l.len.toNat

namespace NdArray

/-- Read a flat form. -/
def decode (buf : List UInt8) : Except ArrayError NdArray := do
  let header ← FlatHeader.read buf
  let n ← itemCount header.dims
  let (nulls, start) ← header.placement buf n
  if buf.length < start then throw (.malformed .dataPastEnd)
  if header.ndim = 0 ∧ start ≠ buf.length then throw (.malformed .dataInEmpty)
  let size := buf.length - start
  if (header.tag.dataSize? (presentCount n nulls)).any (· != size) then
    throw (.malformed .dataLength)
  reserveData size
  return {
    tag := header.tag
    ndim := Int32.ofNat header.ndim
    dims := header.dims
    lbounds := header.lbounds
    dataOffset := header.dataOffset
    nulls
    data := buf.drop start }

end NdArray

end PackedArray
