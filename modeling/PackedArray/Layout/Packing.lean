import PackedArray.Scalar
import PackedArray.Error
import PackedArray.Storage.Region

/-!
# PackedArray.Layout.Packing

Packing one element and unpacking it again.  A fixed-width value is copied at
its storage width; a variable-length value is a four-byte length word, twice
shifted to the left, and the payload.  Every element is followed by padding
up to the boundary of its layout.

* `Layout.pack` — the packed bytes of an element, without padding;
* `Layout.stride` — the room that it takes, padding included;
* `Region.store` — write it at the cursor of a region;
* `Layout.unpack` — read it back at the front of a byte list;
* `Layout.fetch` — read it back at an offset, and step over its padding.
-/

namespace PackedArray

/-- Bytes of the length word of a variable-length element. -/
def variableHeaderSize : Nat := 4

/-- The greatest length that a length word can hold. -/
def maxVariableSize : Nat := 0x3fffffff

namespace Layout

/-! ## packing -/

/-- The bytes of a variable-length element: length word and payload. -/
def packVariable (payload : List UInt8) : Except ArrayError (List UInt8) :=
  let total := payload.length + variableHeaderSize
  if total ≤ maxVariableSize then .ok (leBytes 4 (4 * total) ++ payload)
  else .error (.malformed .elementTooLarge)

/-- The packed bytes of an element, without padding.  A block is cut or
zero-padded to the width of a by-reference layout; any other combination
needs one of the widths of a word. -/
def pack (l : Layout) (x : Scalar) : Except ArrayError (List UInt8) :=
  if l.isVariable then
    match x with
    | .word _ => .error .variableByValue
    | .ref payload => packVariable payload
  else if l.len ≤ 0 then .error (.invalidTypeLength l.len)
  else if x.isRef && !l.byValue then .ok (x.lead l.len.toNat)
  else
    match x.fixedBytes l.len.toNat with
    | some bs => .ok bs
    | none => .error (.invalidTypeLength l.len)

/-- The room that an element takes in a data buffer, padding included.  A
variable-length element is only measured here; whether its length word can
hold the length is found when it is packed. -/
def stride (l : Layout) (x : Scalar) : Except ArrayError Nat :=
  if l.isVariable then
    match x with
    | .word _ => .error .variableByValue
    | .ref payload => .ok (l.align.pad (payload.length + variableHeaderSize))
  else (l.pack x).map fun bs => l.align.pad bs.length

end Layout

/-- Write an element at the cursor and move the cursor past its padding.  The
answer is the number of bytes taken.  An element whose padding does not fit
has been written all the same. -/
def Region.store (r : Region) (l : Layout) (x : Scalar) : Region × Except ArrayError Nat :=
  match l.pack x with
  | .error e => (r, .error e)
  | .ok bs =>
    match r.write bs with
    | none => (r, .error (.malformed .elementOverrun))
    | some written =>
      match written.alignCursor l.align with
      | none => (written, .error (.malformed .paddingOverrun))
      | some padded => (padded, .ok (padded.cursor - r.cursor))

namespace Layout

/-! ## unpacking -/

/-- The variable-length element at the front of `bs`, and the length that its
word tells. -/
def unpackVariable (bs : List UInt8) : Except ArrayError (Scalar × Nat) :=
  match front? variableHeaderSize bs with
  | none => .error (.malformed .elementOverrun)
  | some header =>
    let total := leNat header / 4
    if total < variableHeaderSize then .error (.malformed .lengthBelowHeader)
    else
      match front? (total - variableHeaderSize) (bs.drop variableHeaderSize) with
      | none => .error (.malformed .elementOverrun)
      | some payload => .ok (.ref payload, total)

/-- The fixed-width element at the front of `bs`, and its width. -/
def unpackFixed (l : Layout) (bs : List UInt8) : Except ArrayError (Scalar × Nat) :=
  if l.len ≤ 0 then .error (.invalidTypeLength l.len)
  else
    let width := l.len.toNat
    match front? width bs with
    | none => .error (.malformed .elementOverrun)
    | some image =>
      if !l.byValue then .ok (.ref image, width)
      else if width ∈ Scalar.wordWidths then .ok (.word (UInt64.ofNat (leNat image)), width)
      else .error (.invalidTypeLength l.len)

/-- The element at the front of `bs`, and the bytes that it takes without its
padding. -/
def unpack (l : Layout) (bs : List UInt8) : Except ArrayError (Scalar × Nat) :=
  if l.isVariable then unpackVariable bs else l.unpackFixed bs

/-- The element at `offset` and the offset of what follows its padding. -/
def fetch (l : Layout) (data : List UInt8) (offset : Nat) : Except ArrayError (Scalar × Nat) :=
  (l.unpack (data.drop offset)).map fun (x, taken) => (x, l.align.pad (offset + taken))

end Layout

end PackedArray
