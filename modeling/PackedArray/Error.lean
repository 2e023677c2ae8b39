import PackedArray.Layout.Basic

/-!
# PackedArray.Error

What can go wrong, as causes.  Each layer has its own type of errors; the
wording of an error is its `message`, and nothing else depends on the
wording.

* `ScalarError` — conversions of one scalar;
* `AllocError` — requests for storage;
* `ArrayError` — building, reading and decoding arrays;
* `OpError` — combining arrays.  `OpError.ofScalar` and `OpError.ofArray` lift
  the errors of the lower layers and give a cause that both layers know its
  name in the upper one.
-/

namespace PackedArray

/-- Errors of the scalar layer. -/
inductive ScalarError
  /-- The tag names no numeric kind. -/
  | unsupportedType (tag : Tag)
  /-- The value does not fit the named range. -/
  | outOfRange (target : String)
  /-- A finite input produced an infinite result. -/
  | floatOverflow
  /-- A non-zero input produced a zero result. -/
  | floatUnderflow
  deriving DecidableEq, Repr

/-- Errors of storage requests. -/
inductive AllocError
  /-- The request exceeds the allocator's ceiling. -/
  | invalidSize (requested max : Nat)
  /-- No storage of this size exists. -/
  | outOfMemory (requested : Nat)
  deriving DecidableEq, Repr

/-- What is wrong with packed bytes. -/
inductive Defect
  | elementTooLarge
  | elementOverrun
  | paddingOverrun
  | lengthBelowHeader
  | headerTruncated
  | totalLength
  | dimensionCount
  | dataOffset
  | bitmapTruncated
  | dataPastEnd
  | dataInEmpty
  | dataLength
  /-- A defect that a caller words itself. -/
  | other (detail : String)
  deriving DecidableEq, Repr

/-- Errors of building, reading and decoding arrays. -/
inductive ArrayError
  /-- Extents and lower bounds differ in number. -/
  | invalidDimensions (dims lbounds : Nat)
  /-- More dimensions than an array can have. -/
  | tooManyDimensions (ndim max : Nat)
  /-- The item count or the byte size crosses the bound. -/
  | sizeExceeded (max : Nat)
  /-- Fewer elements or null flags than the dimensions need. -/
  | elementCountMismatch (expected found : Nat)
  /-- A packed buffer is shorter than the array it should fill. -/
  | bufferTooShort (needed found : Nat)
  /-- A null element where the caller cannot take one. -/
  | nullNotAllowed
  /-- The tag names no numeric kind. -/
  | unsupportedType (tag : Tag)
  /-- The tag asked for is not the array's. -/
  | elementTypeMismatch (expected found : Tag)
  /-- A width that the passing mode does not admit. -/
  | invalidTypeLength (len : Int)
  /-- A variable-length element given as an inline word. -/
  | variableByValue
  /-- Packed bytes are inconsistent. -/
  | malformed (defect : Defect)
  /-- The data buffer could not be obtained. -/
  | alloc (cause : AllocError)
  deriving DecidableEq, Repr

/-- Errors of combining arrays. -/
inductive OpError
  /-- The arrays differ in dimension count. -/
  | dimensionCountMismatch (left right : Int)
  /-- Extents or lower bounds differ in one dimension; each side is given as
  lower bound and lower bound plus extent. -/
  | rangeMismatch (dim : Nat) (left right : Int32 × Int32)
  /-- An input array contains a null element. -/
  | nullElement
  /-- The arrays differ in element type. -/
  | elementTypeMismatch (left right : Tag)
  /-- The tag names no numeric kind. -/
  | unsupportedType (tag : Tag)
  /-- A zero denominator. -/
  | divisionByZero
  /-- A numeric conversion failed. -/
  | scalar (cause : ScalarError)
  /-- Reading or repacking an array failed. -/
  | array (cause : ArrayError)
  /-- The scalar operand is not stored the way the element type is; callers
  promise that it is. -/
  | scalarStorage (tag : Tag)
  deriving DecidableEq, Repr

/-! ## wording -/

def ScalarError.message : ScalarError → String
  | unsupportedType tag =>
    let name := tag.typeName
    s!"arrays with element type {name} are not supported"
  | outOfRange target => s!"{target} out of range"
  | floatOverflow => "value out of range: overflow"
  | floatUnderflow => "value out of range: underflow"

def AllocError.message : AllocError → String
  | invalidSize requested max =>
    s!"invalid memory alloc request size {requested} (max {max})"
  | outOfMemory requested => s!"out of memory: failed on request of size {requested}"

def Defect.detail : Defect → String
  | elementTooLarge => "variable-length element too large"
  | elementOverrun => "element overruns data buffer"
  | paddingOverrun => "element padding overruns data buffer"
  | lengthBelowHeader => "variable-length header shorter than itself"
  | headerTruncated => "header truncated"
  | totalLength => "length word does not match buffer"
  | dimensionCount => "dimension count out of range"
  | dataOffset => "dataoffset inconsistent with dimensions"
  | bitmapTruncated => "null bitmap truncated"
  | dataPastEnd => "data offset past end of buffer"
  | dataInEmpty => "empty array carries data"
  | dataLength => "data length inconsistent with item count"
  | other detail => detail

def ArrayError.message : ArrayError → String
  | invalidDimensions dims lbounds =>
    s!"invalid number of dimensions: {dims} extents but {lbounds} lower bounds"
  | tooManyDimensions ndim max =>
    s!"number of array dimensions ({ndim}) exceeds the maximum allowed ({max})"
  | sizeExceeded max => s!"array size exceeds the maximum allowed ({max})"
  | elementCountMismatch expected found => s!"array needs {expected} elements, got {found}"
  | bufferTooShort needed found => s!"element buffer needs {needed} bytes, got {found}"
  | nullNotAllowed => "null array element not allowed in this context"
  | unsupportedType tag =>
    let name := tag.typeName
    s!"arrays with element type {name} are not supported"
  | elementTypeMismatch expected found =>
    let stored := found.typeName
    let wanted := expected.typeName
    s!"array element type {stored} does not match expected type {wanted}"
  | invalidTypeLength len => s!"unsupported byval length: {len}"
  | variableByValue => "variable-length element must be passed by reference"
  | malformed defect =>
    let detail := defect.detail
    s!"malformed array: {detail}"
  | alloc cause =>
    let inner := cause.message
    s!"array allocation failed: {inner}"

/-- A range as it appears in messages. -/
def rangeText (range : Int32 × Int32) : String :=
  let lower := range.1.toInt
  let upper := range.2.toInt
  s!"[{lower},{upper}]"

def OpError.message : OpError → String
  | dimensionCountMismatch left right =>
    s!"arrays with {left} and {right} dimensions are not compatible for this operation"
  | rangeMismatch dim left right =>
    let l := rangeText left
    let r := rangeText right
    s!"arrays with range {l} and {r} for dimension {dim} are not compatible for operations"
  | nullElement => "arrays with element value NULL are not allowed"
  | elementTypeMismatch left right =>
    let l := left.typeName
    let r := right.typeName
    s!"arrays with element types {l} and {r} are not compatible for this operation"
  | unsupportedType tag =>
    let name := tag.typeName
    s!"arrays with element type {name} are not supported"
  | divisionByZero => "arrays with element 0 can not be used in the denominator"
  | scalar cause => cause.message
  | array cause => cause.message
  | scalarStorage tag =>
    let code := tag.display
    s!"scalar storage does not match element type {code}"

/-! ## lifting -/

/-- A scalar error seen from the operators. -/
def OpError.ofScalar : ScalarError → OpError
  | .unsupportedType tag => .unsupportedType tag
  | e => .scalar e

/-- An array error seen from the operators. -/
def OpError.ofArray : ArrayError → OpError
  | .nullNotAllowed => .nullElement
  | .unsupportedType tag => .unsupportedType tag
  | e => .array e

namespace Tag

/-- The numeric kind of a tag, or the error that it has none. -/
def kind (t : Tag) : Except ScalarError Kind :=
  match t.kind? with
  | some k => .ok k
  | none => .error (.unsupportedType t)

/-- The storage traits of a numeric tag in the default build, or the error that it has
none. -/
def layout (t : Tag) : Except ScalarError Layout := t.kind.map Kind.layout

end Tag

end PackedArray
