import PackedArray.Proofs.Machine.Shape

/-!
# PackedArray.Proofs.Machine.Building

Packing elements and building arrays in machine words.

Both passes over the elements look up a null flag by index, the second one writes
into a region through its cursor.  The regions are those that were asked for, so
their cursors stay within their storage.

* `pack_eq`, `stride_eq`, `store_eq_lift` — one element;
* `measureFrom_eq`, `storeAll_eq_lift` — the two passes;
* `ofElements_eq` — building.
-/

namespace PackedArray.Machine

variable {ε : Type}

/-! ## one element -/

/-- Copy bytes over those from `start` on and before `stop`, which have to be as
many. -/
def copy (dest : List UInt8) (start stop : Nat) (bytes : List UInt8) : Run ε Unit := do
  let place ← slice dest start stop
  demand (place.length = bytes.length)

theorem copy_eq_ok {dest bytes : List UInt8} {start : Nat}
    (h : start + bytes.length ≤ dest.length) :
    (copy dest start (start + bytes.length) bytes : Run ε Unit) = .ok () := by
  rw [copy, slice_of_le (Nat.le_add_right _ _) h, ok_bind]
  refine demand_of ?_
  rw [List.length_take, List.length_drop]
  omega

/-- The first bytes of a block, which are copied into zeros if there are too few. -/
def blockLead (n : Nat) (bytes : List UInt8) : Run ε (List UInt8) :=
  if n ≤ bytes.length then slice bytes 0 n
  else do
    copy (List.replicate n 0) 0 bytes.length bytes
    return fit n bytes

/-- The first bytes of a scalar; those of a block are copied into zeros. -/
def lead (n : Nat) (x : Scalar) : Run ε (List UInt8) :=
  match x with
  | .word _ => .ok (x.lead n)
  | .ref bytes => do
    let front ← slice bytes 0 (min bytes.length n)
    copy (List.replicate n 0) 0 (min bytes.length n) front
    return x.lead n

/-- The representation of a value at the width of a word. -/
def fixedBytes (n : Nat) (x : Scalar) : Run ε (Option (List UInt8)) :=
  if n ∈ Scalar.wordWidths then do
    let bs ← lead n x
    return some bs
  else .ok none

def pack (l : Layout) (x : Scalar) : Run ArrayError (List UInt8) :=
  if l.isVariable then
    match x with
    | .word _ => .error (.reported .variableByValue)
    | .ref payload => do
      let total ← word (payload.length + variableHeaderSize)
      if total ≤ maxVariableSize then .ok (leBytes 4 (4 * total) ++ payload)
      else .error (.reported (.malformed .elementTooLarge))
  else if l.len ≤ 0 then .error (.reported (.invalidTypeLength l.len))
  else if x.isRef && !l.byValue then blockLead l.len.toNat x.image
  else do
    match ← fixedBytes l.len.toNat x with
    | some bs => .ok bs
    | none => .error (.reported (.invalidTypeLength l.len))

def stride (l : Layout) (x : Scalar) : Run ArrayError Nat :=
  if l.isVariable then
    match x with
    | .word _ => .error (.reported .variableByValue)
    | .ref payload => do
      let raw ← word (payload.length + variableHeaderSize)
      pad l.align raw
  else do
    let bs ← pack l x
    pad l.align bs.length

/-- The layout has a width that is one of those that traits can have, and if it is
variable, the element is one that storage can have. -/
def Packable (l : Layout) (x : Scalar) : Prop :=
  l.len ≤ 0x7fff ∧ (l.isVariable = true → x.image.length < 0x4000000000000000)

theorem blockLead_eq (n : Nat) (bytes : List UInt8) :
    (blockLead n bytes : Run ε _) = .ok (fit n bytes) := by
  unfold blockLead
  split
  · next hle =>
      rw [slice_of_le (Nat.zero_le _) hle, fit_eq_take hle, List.drop_zero, Nat.sub_zero]
  · next hlt =>
      have hcopy := @copy_eq_ok ε (List.replicate n 0) bytes 0 (by
        rw [List.length_replicate]
        omega)
      rw [Nat.zero_add] at hcopy
      rw [hcopy]
      rfl

theorem lead_eq (n : Nat) (x : Scalar) : (lead n x : Run ε _) = .ok (x.lead n) := by
  cases x with
  | word w => rfl
  | ref bytes =>
      have hfront : (bytes.take (min bytes.length n)).length = min bytes.length n :=
        List.length_take_of_le (Nat.min_le_left _ _)
      have hcopy := @copy_eq_ok ε (List.replicate n 0) (bytes.take (min bytes.length n)) 0 (by
        rw [hfront, List.length_replicate]
        omega)
      rw [Nat.zero_add, hfront] at hcopy
      simp only [lead, slice_of_le (Nat.zero_le _) (Nat.min_le_left _ _), List.drop_zero,
        Nat.sub_zero, ok_bind, hcopy]
      rfl

theorem fixedBytes_eq (n : Nat) (x : Scalar) :
    (fixedBytes n x : Run ε _) = .ok (x.fixedBytes n) := by
  rw [fixedBytes, lead_eq, Scalar.fixedBytes]
  split <;> rfl

theorem pack_eq {l : Layout} {x : Scalar} (h : Packable l x) : pack l x = lift (l.pack x) := by
  unfold pack Layout.pack
  cases hv : l.isVariable with
  | true =>
      cases x with
      | word w => rfl
      | ref payload =>
          have hlt : payload.length + variableHeaderSize < 0x10000000000000000 := by
            have hlen : payload.length < 0x4000000000000000 := h.2 hv
            unfold variableHeaderSize
            omega
          rw [if_pos rfl, if_pos rfl]
          simp only [word_of_lt hlt, ok_bind, Layout.packVariable]
          split <;> rfl
  | false =>
      rw [if_neg Bool.false_ne_true, if_neg Bool.false_ne_true]
      split
      · rfl
      · split
        · rw [blockLead_eq]
          rfl
        · rw [fixedBytes_eq, ok_bind]
          cases x.fixedBytes l.len.toNat <;> rfl

theorem stride_eq {l : Layout} {x : Scalar} (h : Packable l x) :
    stride l x = lift (l.stride x) := by
  unfold stride Layout.stride
  cases hv : l.isVariable with
  | true =>
      cases x with
      | word w => rfl
      | ref payload =>
          have hlen : payload.length < 0x4000000000000000 := h.2 hv
          have hlt : payload.length + variableHeaderSize < 0x8000000000000000 := by
            unfold variableHeaderSize
            omega
          rw [if_pos rfl, if_pos rfl]
          simp only [word_of_lt (Nat.lt_trans hlt (by decide)), ok_bind, pad_eq _ hlt]
          rfl
  | false =>
      rw [if_neg Bool.false_ne_true, if_neg Bool.false_ne_true, pack_eq h]
      cases hp : l.pack x with
      | error e => rfl
      | ok bs =>
          obtain ⟨-, -, rfl⟩ := (Layout.pack_eq_ok_iff hv).mp hp
          have hlen := h.1
          rw [lift_ok, ok_bind, Scalar.length_lead, pad_eq _ (by omega), Except.map,
            Scalar.length_lead]
          rfl

/-! ## regions -/

/-- Hand out as many bytes as there are and copy them there: the end must not pass
that of the region, and lies within its storage. -/
def write (r : Region) (bytes : List UInt8) : Run ε (Option Region) :=
  if 0x10000000000000000 ≤ r.cursor + bytes.length ∨ r.length < r.cursor + bytes.length then
    .ok none
  else do
    demand (r.cursor + bytes.length ≤ r.backing)
    return r.write bytes

def alignCursor (r : Region) (a : Align) : Run ε (Option Region) := do
  let aligned ← pad a r.cursor
  if r.length < aligned then .ok none else .ok (r.alignCursor a)

/-- Write an element and step over its padding. -/
def store (r : Region) (l : Layout) (x : Scalar) : Run ArrayError Region := do
  let bs ← pack l x
  match ← write r bs with
  | none => .error (.reported (.malformed .elementOverrun))
  | some written =>
    match ← alignCursor written l.align with
    | none => .error (.reported (.malformed .paddingOverrun))
    | some padded => do
      let _ ← sub padded.cursor r.cursor
      return padded

/-- A region as it was asked for: it lies in its storage, and is no greater than
what can be asked for. -/
structure Roomy (r : Region) : Prop where
  length_le : r.length ≤ r.backing
  le_max : r.length ≤ maxDataSize

theorem roomy_zeros {size : Nat} (h : size ≤ maxDataSize) : Roomy (Region.zeros size) where
  length_le := by
    rw [Region.length_zeros]
    exact Nat.le_max_left _ _
  le_max := by rwa [Region.length_zeros]

section Regions

variable {r : Region} (h : Roomy r)

include h

theorem Roomy.of_write {bytes : List UInt8} {next : Region} (hnext : r.write bytes = some next) :
    Roomy next ∧ r.cursor ≤ next.cursor := by
  obtain ⟨-, -, hcursor, hbacking⟩ := Region.bytes_of_write hnext
  have hlength := Region.length_of_write hnext
  refine ⟨⟨?_, ?_⟩, by omega⟩
  · rw [hlength, hbacking]
    exact h.length_le
  · rw [hlength]
    exact h.le_max

theorem Roomy.of_alignCursor {a : Align} {next : Region} (hnext : r.alignCursor a = some next) :
    Roomy next ∧ r.cursor ≤ next.cursor := by
  obtain ⟨-, hcursor, hbacking⟩ := Region.bytes_of_alignCursor hnext
  have hlength := Region.length_of_alignCursor hnext
  refine ⟨⟨?_, ?_⟩, hcursor ▸ a.le_pad _⟩
  · rw [hlength, hbacking]
    exact h.length_le
  · rw [hlength]
    exact h.le_max

theorem write_eq (bytes : List UInt8) : (write r bytes : Run ε _) = .ok (r.write bytes) := by
  have hlength := h.length_le
  have hmax := h.le_max
  have hdata : maxDataSize = 0x3fffffff := rfl
  unfold write
  split
  · next hout =>
      rw [Region.write_eq_none_iff.mpr (by omega)]
  · next hin =>
      rw [demand_of (by omega), ok_bind]
      rfl

theorem alignCursor_eq (a : Align) : (alignCursor r a : Run ε _) = .ok (r.alignCursor a) := by
  have hmax := h.le_max
  have hdata : maxDataSize = 0x3fffffff := rfl
  have hcursor := r.cursor_le_length
  rw [alignCursor, pad_eq a (by omega), ok_bind]
  split
  · next hout => rw [Region.alignCursor_eq_none_iff.mpr hout]
  · rfl

end Regions

/-- What is left of storing an element once the bytes that it took are forgotten. -/
def stored (r : Region) (l : Layout) (x : Scalar) : Except ArrayError Region :=
  match r.store l x with
  | (next, .ok _) => .ok next
  | (_, .error e) => .error e

variable {r : Region} {l : Layout} {x : Scalar}

theorem storeAll_cons (r : Region) (l : Layout) (x : Scalar) (xs : List Scalar) :
    r.storeAll l (x :: xs) = stored r l x >>= fun next => next.storeAll l xs := by
  rw [Region.storeAll, stored]
  split <;> simp_all [bind, Except.bind]

theorem store_eq_lift (h : Roomy r) (hx : Packable l x) : store r l x = lift (stored r l x) := by
  unfold store stored Region.store
  rw [pack_eq hx]
  cases l.pack x with
  | error e => rfl
  | ok bs =>
      simp only [lift_ok, ok_bind, write_eq h]
      cases hwritten : r.write bs with
      | none => rfl
      | some written =>
          obtain ⟨hroomy, hle⟩ := h.of_write hwritten
          simp only [alignCursor_eq hroomy, ok_bind]
          cases hpadded : written.alignCursor l.align with
          | none => rfl
          | some padded =>
              obtain ⟨-, hle'⟩ := hroomy.of_alignCursor hpadded
              simp only [sub_of_le (Nat.le_trans hle hle'), ok_bind]
              rfl

theorem Roomy.of_stored {next : Region} (h : Roomy r) (hnext : stored r l x = .ok next) :
    Roomy next := by
  unfold stored Region.store at hnext
  cases hbs : l.pack x with
  | error e => simp [hbs] at hnext
  | ok bs =>
      cases hwritten : r.write bs with
      | none => simp [hbs, hwritten] at hnext
      | some written =>
          obtain ⟨hroomy, -⟩ := h.of_write hwritten
          cases hpadded : written.alignCursor l.align with
          | none => simp [hbs, hwritten, hpadded] at hnext
          | some padded =>
              simp only [hbs, hwritten, hpadded, Except.ok.injEq] at hnext
              exact hnext ▸ (hroomy.of_alignCursor hpadded).1

/-! ## the two passes -/

/-- Whether the null flag of item `i` is set, if flags are given. -/
def flagAt (nulls : Option (List Bool)) (i : Nat) : Run ε Bool :=
  match nulls with
  | some flags => index flags i
  | none => .ok false

/-- Measure the elements from item `i` on, null flags looked up by index. -/
def measureFrom (l : Layout) (nulls : Option (List Bool)) (i acc : Nat) :
    List Scalar → Run ArrayError Nat
  | [] => .ok acc
  | x :: xs => do
    if ← flagAt nulls i then measureFrom l nulls (i + 1) acc xs
    else
      let n ← stride l x
      if acc + n ≤ maxDataSize then measureFrom l nulls (i + 1) (acc + n) xs
      else .error (.reported (.sizeExceeded maxDataSize))

/-- Store the elements from item `i` on. -/
def storeAll (l : Layout) (nulls : Option (List Bool)) (i : Nat) :
    List Scalar → Region → Run ArrayError Region
  | [], r => .ok r
  | x :: xs, r => do
    if ← flagAt nulls i then storeAll l nulls (i + 1) xs r
    else
      let next ← store r l x
      storeAll l nulls (i + 1) xs next

/-- A region for an array's data, which its storage has to cover. -/
def allocData (size : Nat) : Run ArrayError Region := do
  let region ← lift (PackedArray.allocData size)
  demand (max region.length 1 ≤ region.backing)
  return region

def packData (l : Layout) (nulls : Option (List Bool)) (elems : List Scalar) :
    Run ArrayError (List UInt8) := do
  let size ← measureFrom l nulls 0 0 elems
  let region ← allocData size
  let filled ← storeAll l nulls 0 elems region
  demand (filled.length ≤ filled.backing)
  return filled.bytes

/-- The flags from item `i` on, looked up by index, are these. -/
def FlagsAt (nulls : Option (List Bool)) (i : Nat) (flags : List Bool) : Prop :=
  ∀ (j : Nat) (flag : Bool), flags[j]? = some flag →
    ∀ {ε : Type}, (flagAt nulls (i + j) : Run ε Bool) = .ok flag

section Passes

variable {nulls : Option (List Bool)} {i acc : Nat} {flag : Bool} {flags : List Bool}
  {elems : List Scalar}

theorem FlagsAt.head (h : FlagsAt nulls i (flag :: flags)) :
    (flagAt nulls i : Run ε Bool) = .ok flag := h 0 flag rfl

theorem FlagsAt.tail (h : FlagsAt nulls i (flag :: flags)) : FlagsAt nulls (i + 1) flags := by
  intro j b hb ε
  rw [Nat.add_assoc, Nat.add_comm 1 j]
  exact h (j + 1) b hb

theorem measureFrom_eq (h : FlagsAt nulls i flags) (hlen : elems.length = flags.length)
    (hx : ∀ x ∈ elems, Packable l x) :
    measureFrom l nulls i acc elems =
      lift (l.measureFrom acc (presentElements elems flags)) := by
  induction elems generalizing i acc flags with
  | nil => rfl
  | cons x elems ih =>
      cases flags with
      | nil => contradiction
      | cons flag flags =>
          obtain ⟨hx, hxs⟩ := List.forall_mem_cons.mp hx
          have hrest : elems.length = flags.length := Nat.succ.inj hlen
          rw [measureFrom, h.head, ok_bind]
          cases flag with
          | true => exact ih h.tail hrest hxs
          | false =>
              rw [if_neg Bool.false_ne_true, stride_eq hx, presentElements_cons_false,
                Layout.measureFrom]
              cases l.stride x with
              | error e => rfl
              | ok n =>
                  simp only [lift_ok, ok_bind]
                  split
                  · exact ih h.tail hrest hxs
                  · rfl

theorem storeAll_eq_lift (h : FlagsAt nulls i flags) (hlen : elems.length = flags.length)
    (hx : ∀ x ∈ elems, Packable l x) (hr : Roomy r) :
    storeAll l nulls i elems r = lift (r.storeAll l (presentElements elems flags)) := by
  -- the flags are those from item `i` on, and the region stays as it was asked for
  induction elems generalizing i r flags with
  | nil => rfl
  | cons x elems ih =>
      cases flags with
      | nil => contradiction
      | cons flag flags =>
          obtain ⟨hx, hxs⟩ := List.forall_mem_cons.mp hx
          have hrest : elems.length = flags.length := Nat.succ.inj hlen
          rw [storeAll, h.head, ok_bind]
          cases flag with
          | true => exact ih h.tail hrest hxs hr
          | false =>
              rw [if_neg Bool.false_ne_true, presentElements_cons_false, storeAll_cons]
              exact bind_eq_lift (store_eq_lift hr hx) fun next hnext =>
                ih h.tail hrest hxs (hr.of_stored hnext)

theorem Roomy.of_storeAll {xs : List Scalar} {next : Region} (h : Roomy r)
    (hnext : r.storeAll l xs = .ok next) : Roomy next := by
  induction xs generalizing r with
  | nil =>
      cases hnext
      exact h
  | cons x xs ih =>
      rw [storeAll_cons, bind_eq_ok_iff] at hnext
      obtain ⟨mid, hmid, hnext⟩ := hnext
      exact ih (h.of_stored hmid) hnext

theorem allocData_eq (size : Nat) : allocData size = lift (PackedArray.allocData size) := by
  unfold allocData PackedArray.allocData
  cases reserveData size with
  | error e => rfl
  | ok _ =>
      have hbacking : max (Region.zeros size).length 1 ≤ (Region.zeros size).backing := by
        rw [Region.length_zeros]
        exact Nat.le_refl _
      rw [Except.map, lift_ok, ok_bind, demand_of hbacking]
      rfl

theorem packData_eq_lift (h : FlagsAt nulls 0 flags) (hlen : elems.length = flags.length)
    (hx : ∀ x ∈ elems, Packable l x) :
    packData l nulls elems = lift (NdArray.packData l (presentElements elems flags)) := by
  refine bind_eq_lift (measureFrom_eq h hlen hx) fun size hsize => ?_
  obtain ⟨-, -, hmax⟩ := Layout.pack_of_measureFrom hsize (Nat.zero_le _)
  have hroomy := roomy_zeros hmax
  rw [allocData_eq, allocData_eq_ok hmax, lift_ok, ok_bind, ok_bind]
  refine bind_eq_lift (storeAll_eq_lift h hlen hx hroomy) fun filled hfilled => ?_
  rw [demand_of (hroomy.of_storeAll hfilled).length_le]
  rfl

end Passes

/-! ## building -/

/-- The flags of the first `n` items, if flags are given. -/
def givenFlags (n : Nat) : Option (List Bool) → Run ArrayError (Option (List Bool))
  | none => .ok none
  | some flags =>
    if flags.length < n then .error (.reported (.elementCountMismatch n flags.length))
    else do
      let front ← slice flags 0 n
      return some front

/-- The data offset of an array with these null flags. -/
def dataOffset (ndim n : Nat) (nulls : Option (List Bool)) : Run ε Int32 :=
  if nulls.any (·.any id) then do
    let size ← nullableHeaderSize ndim n
    return Int32.ofNat size
  else .ok 0

/-- The null bitmap of an array with these null flags. -/
def bitmapOf (nulls : Option (List Bool)) : Run ε (Option NullBitmap) :=
  match nulls with
  | some flags =>
    if flags.any id then do
      let bitmap ← ofNulls flags
      return some bitmap
    else .ok none
  | none => .ok none

/-- The header is sized before storage is asked for. -/
def ofElements (elems : List Scalar) (nulls : Option (List Bool)) (dims lbounds : List Int32)
    (tag : Tag) (l : Layout) : Run ArrayError NdArray := do
  lift (checkDimensions dims lbounds)
  if dims.isEmpty then return .empty tag
  let n ← itemCount dims
  if elems.length < n then throw (.reported (.elementCountMismatch n elems.length))
  let given ← givenFlags n nulls
  lift (l.checkNominal n)
  let front ← slice elems 0 n
  let offset ← dataOffset dims.length n given
  let data ← packData l given front
  let bitmap ← bitmapOf given
  return {
    tag
    ndim := Int32.ofNat dims.length
    dims
    lbounds
    dataOffset := offset
    nulls := bitmap
    data }

section

variable {n : Nat} {nulls : Option (List Bool)} {flags : List Bool}

theorem givenFlags_eq (n : Nat) (nulls : Option (List Bool)) :
    givenFlags n nulls = lift ((NdArray.nullFlags n nulls).map fun flags =>
      nulls.map fun _ => flags) := by
  unfold givenFlags NdArray.nullFlags
  cases nulls with
  | none => rfl
  | some flags =>
      simp only
      split
      · rfl
      · next hge =>
          rw [slice_of_le (Nat.zero_le _) (Nat.le_of_not_lt hge)]
          rfl

theorem flagsAt_of_nullFlags (h : NdArray.nullFlags n nulls = .ok flags) :
    FlagsAt (nulls.map fun _ => flags) 0 flags := by
  intro j flag hj ε
  rw [Nat.zero_add]
  cases nulls with
  | none =>
      obtain rfl := Except.ok.inj h
      rw [List.eq_of_mem_replicate (List.mem_of_getElem? hj)]
      rfl
  | some given =>
      rw [Option.map_some, flagAt, index, hj]

theorem any_of_nullFlags (h : NdArray.nullFlags n nulls = .ok flags) :
    (nulls.map fun _ => flags).any (·.any id) = flags.any id := by
  cases nulls with
  | none =>
      obtain rfl := Except.ok.inj h
      simp
  | some given => rfl

theorem dataOffset_eq {ndim : Nat} (hdim : ndim ≤ maxDimensions) (hn : n ≤ maxItems)
    (h : NdArray.nullFlags n nulls = .ok flags) :
    (dataOffset ndim n (nulls.map fun _ => flags) : Run ε Int32) =
      .ok (if flags.any id then Int32.ofNat (PackedArray.nullableHeaderSize ndim n) else 0) := by
  rw [dataOffset, any_of_nullFlags h, nullableHeaderSize_eq hdim hn]
  split <;> rfl

theorem bitmapOf_eq (h : NdArray.nullFlags n nulls = .ok flags) :
    (bitmapOf (nulls.map fun _ => flags) : Run ε (Option NullBitmap)) =
      .ok (if flags.any id then some (.ofNulls flags) else none) := by
  cases nulls with
  | none =>
      obtain rfl := Except.ok.inj h
      simp [bitmapOf]
  | some given =>
      rw [Option.map_some, bitmapOf, ofNulls_eq]
      split <;> rfl

end

/-- **Building** from elements that can be packed never breaks off. -/
theorem ofElements_eq {elems : List Scalar} {l : Layout} (hx : ∀ x ∈ elems, Packable l x)
    (nulls : Option (List Bool)) (dims lbounds : List Int32) (tag : Tag) :
    ofElements elems nulls dims lbounds tag l =
      lift (NdArray.ofElements elems nulls dims lbounds tag l) := by
  refine bind_eq_lift rfl fun _ hcheck => ?_
  obtain ⟨hdim, -⟩ := NdArray.checkDimensions_eq_ok_iff.mp hcheck
  split
  · rfl
  refine bind_eq_lift (itemCount_eq dims) fun n hn => refuse_eq_lift fun hle => ?_
  have hcover := Nat.le_of_not_lt hle
  rw [givenFlags_eq]
  refine bind_map_eq_lift fun flags hflags => bind_eq_lift rfl fun _ _ => ?_
  obtain ⟨rfl, -⟩ := NdArray.nullFlags_eq_ok_iff.mp hflags
  rw [slice_of_le (Nat.zero_le _) hcover, ok_bind, List.drop_zero, Nat.sub_zero,
    dataOffset_eq hdim (itemCount_le hn) hflags, ok_bind]
  refine bind_eq_lift (packData_eq_lift (flagsAt_of_nullFlags hflags)
    (List.length_take_of_le hcover) fun x hmem => hx x (List.mem_of_mem_take hmem)) fun data _ => ?_
  rw [bitmapOf_eq hflags, ok_bind]
  cases flags.any id <;> rfl

end PackedArray.Machine
