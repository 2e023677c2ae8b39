import PackedArray.Proofs.Machine.Basic
import PackedArray.Proofs.WellFormed

/-!
# PackedArray.Proofs.Machine.Shape

Boundaries, item counts, header sizes and null bitmaps in machine words.

Extents that can be counted keep every product on the way small, and an array has
few enough items that its bits can be counted in a half word.
-/

namespace PackedArray.Machine

variable {ε : Type}

/-! ## boundaries -/

/-- Round up to the next boundary: a whole boundary is added first, one is taken
away again, and the rest is cut off. -/
def pad (a : Align) (off : Nat) : Run ε Nat := do
  let past ← word (off + a.width)
  let last ← sub past 1
  return last / a.width * a.width

theorem pad_eq (a : Align) {off : Nat} (h : off < 0x8000000000000000) :
    (pad a off : Run ε Nat) = .ok (a.pad off) := by
  have hpos := a.width_pos
  have hle := a.width_le_eight
  rw [pad, word_of_lt (by omega), ok_bind, sub_of_le (by omega), ok_bind, Align.pad,
    Nat.add_sub_assoc hpos]
  rfl

/-! ## item counts -/

/-- The running product of extents: each product is taken in a signed word and has
to fit a half of it. -/
def productFrom (acc : Nat) : List Int32 → Run ArrayError Nat
  | [] => .ok acc
  | d :: ds =>
    if d.toInt < 0 then .error (.reported (.sizeExceeded maxItems))
    else do
      let next ← signedWord (acc * d.toInt.toNat)
      if next ≤ maxProduct then productFrom next ds
      else .error (.reported (.sizeExceeded maxItems))

def itemCount (dims : List Int32) : Run ArrayError Nat :=
  if dims.isEmpty then .ok 0
  else do
    let n ← productFrom 1 dims
    if n ≤ maxItems then .ok n else .error (.reported (.sizeExceeded maxItems))

theorem productFrom_eq {acc : Nat} (hacc : acc ≤ maxProduct) (dims : List Int32) :
    productFrom acc dims = match PackedArray.productFrom acc dims with
      | some n => .ok n
      | none => .error (.reported (.sizeExceeded maxItems)) := by
  induction dims generalizing acc with
  | nil => rfl
  | cons d ds ih =>
      have hd : d.toInt.toNat ≤ 0x7fffffff := by
        have := d.toInt_lt
        omega
      -- both factors fit a signed half word, so the product is checked before it can overflow
      have hlt : acc * d.toInt.toNat < 0x8000000000000000 :=
        Nat.lt_of_le_of_lt (Nat.mul_le_mul hacc hd) (by decide)
      rw [productFrom, PackedArray.productFrom]
      split
      · rfl
      · rw [signedWord_of_lt hlt, ok_bind]
        simp only
        by_cases hnext : acc * d.toInt.toNat ≤ maxProduct
        · rw [if_pos hnext, if_pos hnext, ih hnext]
        · rw [if_neg hnext, if_neg hnext]

theorem itemCount_eq (dims : List Int32) : itemCount dims = lift (PackedArray.itemCount dims) := by
  unfold itemCount PackedArray.itemCount itemCount?
  split
  · rfl
  · rw [productFrom_eq (by decide)]
    cases PackedArray.productFrom 1 dims with
    | none => rfl
    | some n =>
        rw [ok_bind]
        by_cases hle : n ≤ maxItems <;> simp [Option.filter, hle]

/-- The product of the extents, each as an unsigned word. -/
def size (a : NdArray) : Run ε Nat :=
  if a.isEmpty then .ok 0
  else a.dims.foldlM (fun n d => word (n * unsigned d)) 1

theorem foldlM_of_productFrom {acc n : Nat} {dims : List Int32}
    (h : PackedArray.productFrom acc dims = some n) :
    dims.foldlM (fun n d => word (n * unsigned d)) acc =
      (.ok n : Run ε Nat) := by
  induction dims generalizing acc with
  | nil =>
      cases h
      rfl
  | cons d ds ih =>
      obtain ⟨hd, hle, h⟩ := productFrom_cons_eq_some_iff.mp h
      have hword : unsigned d = d.toInt.toNat :=
        (unsigned_eq_iff (by have hlt := d.toInt_lt; omega)).mpr (Int.toNat_of_nonneg hd).symm
      rw [List.foldlM_cons, hword, word_of_lt (Nat.lt_of_le_of_lt hle (by decide)), ok_bind, ih h]

theorem size_eq {a : NdArray} (h : a.WellFormed) : (size a : Run ε Nat) = .ok a.size := by
  unfold size
  obtain ⟨hnil, hzero⟩ | ⟨hne, hproduct, -⟩ := itemCount_eq_ok_iff.mp h.itemCount_dims
  · rw [hzero, if_pos (h.isEmpty_iff.mpr hnil)]
  · rw [if_neg (mt h.isEmpty_iff.mp hne), foldlM_of_productFrom hproduct]

/-! ## header sizes -/

def plainHeaderSize (ndim : Nat) : Run ε Nat := do
  let words ← word (8 * ndim)
  let last ← word (fixedHeaderSize + words)
  pad .double last

def nullableHeaderSize (ndim n : Nat) : Run ε Nat := do
  let words ← word (8 * ndim)
  let last ← word (fixedHeaderSize + words)
  let last ← word (last + bitmapSize n)
  pad .double last

theorem plainHeaderSize_eq {ndim : Nat} (hdim : ndim ≤ maxDimensions) :
    (plainHeaderSize ndim : Run ε Nat) = .ok (PackedArray.plainHeaderSize ndim) := by
  unfold maxDimensions at hdim
  rw [plainHeaderSize, word_of_lt (by omega), ok_bind,
    word_of_lt (by unfold fixedHeaderSize; omega), ok_bind,
    pad_eq .double (by unfold fixedHeaderSize; omega)]
  rfl

theorem nullableHeaderSize_eq {ndim n : Nat} (hdim : ndim ≤ maxDimensions) (hn : n ≤ maxItems) :
    (nullableHeaderSize ndim n : Run ε Nat) = .ok (PackedArray.nullableHeaderSize ndim n) := by
  have hmax : maxItems = 134217727 := by decide
  have hbits : fixedHeaderSize + 8 * ndim + bitmapSize n < 0x8000000000000000 := by
    unfold maxDimensions at hdim
    unfold fixedHeaderSize bitmapSize
    omega
  rw [nullableHeaderSize, word_of_lt (by omega), ok_bind, word_of_lt (by omega), ok_bind,
    word_of_lt (by omega), ok_bind, pad_eq .double hbits]
  rfl

/-! ## null bitmaps -/

/-- Whether an item is null, by the bit of its byte. -/
def isNull (b : NullBitmap) (i : Nat) : Run ε Bool :=
  if i < b.len then do
    let byte ← index b.bytes (i / 8)
    demand (i % 8 < 8)
    return !byte.toNat.testBit (i % 8)
  else .ok true

/-- The null items are those that are left when the set bits are taken away. -/
def countNulls (b : NullBitmap) : Run ε Nat := do
  let present ← b.bytes.foldlM (fun n byte => halfWord (n + bitCount byte)) 0
  sub b.len present

/-- Set the bit of each item in its byte. -/
def ofNulls (nulls : List Bool) : Run ε NullBitmap := do
  forM (List.range nulls.length) fun i => demand (i / 8 < bitmapSize nulls.length ∧ i % 8 < 8)
  return .ofNulls nulls

/-- Take the bytes that are needed and clear what is behind the last item. -/
def ofBytes? (bs : List UInt8) (n : Nat) : Run ε (Option NullBitmap) :=
  if bs.length < bitmapSize n then .ok none
  else do
    let _ ← slice bs 0 (bitmapSize n)
    demand (n % 8 < 8)
    let _ ← sub (1 <<< (n % 8)) 1
    return NullBitmap.ofBytes? bs n

section

variable {b : NullBitmap} {n : Nat}

theorem isNull_eq (h : b.Exact n) (i : Nat) : (isNull b i : Run ε Bool) = .ok (b.isNull i) := by
  unfold isNull NullBitmap.isNull NullBitmap.isPresent
  split
  · next hlt =>
      have hbyte : i / 8 < b.bytes.length := by
        rw [h.length_bytes, bitmapSize]
        rw [h.len_eq] at hlt
        omega
      rw [index_of_lt hbyte, ok_bind, demand_of (Nat.mod_lt _ (by decide)), ok_bind, bitAt,
        List.getElem?_eq_getElem hbyte]
      simp [hlt, pure, Except.pure]
  · next hge => simp [hge]

theorem foldlM_halfWord {bs : List UInt8} {acc : Nat}
    (h : acc + bs.foldr (fun byte n => bitCount byte + n) 0 < 0x100000000) :
    bs.foldlM (fun n byte => halfWord (n + bitCount byte)) acc =
      (.ok (acc + bs.foldr (fun byte n => bitCount byte + n) 0) : Run ε Nat) := by
  induction bs generalizing acc with
  | nil => rfl
  | cons byte bs ih =>
      rw [List.foldr_cons, ← Nat.add_assoc] at h ⊢
      rw [List.foldlM_cons, halfWord_of_lt (by omega), ok_bind, ih h]

theorem countNulls_eq (h : b.Exact n) (hn : n < 0x100000000) :
    (countNulls b : Run ε Nat) = .ok b.countNulls := by
  have hle : b.countPresent ≤ n := by
    rw [h, NullBitmap.countPresent_tabulate]
    exact Nat.le_trans List.countP_le_length (Nat.le_of_eq List.length_range)
  have hlt : 0 + b.countPresent < 0x100000000 := by omega
  rw [countNulls, foldlM_halfWord hlt, ok_bind]
  simp only [Nat.zero_add]
  exact sub_of_le (h.len_eq ▸ hle)

theorem forM_eq_ok {α : Type} {xs : List α} {f : α → Run ε Unit} (h : ∀ x ∈ xs, f x = .ok ()) :
    forM xs f = .ok () := by
  induction xs with
  | nil => rfl
  | cons x xs ih =>
      obtain ⟨hx, hxs⟩ := List.forall_mem_cons.mp h
      rw [List.forM_cons, hx, ok_bind, ih hxs]

theorem ofNulls_eq (nulls : List Bool) :
    (ofNulls nulls : Run ε NullBitmap) = .ok (.ofNulls nulls) := by
  rw [ofNulls, forM_eq_ok]
  · rfl
  · intro i hi
    have hlt := List.mem_range.mp hi
    exact demand_of ⟨by unfold bitmapSize; omega, Nat.mod_lt _ (by decide)⟩

theorem ofBytes?_eq (bs : List UInt8) (n : Nat) :
    (ofBytes? bs n : Run ε (Option NullBitmap)) = .ok (NullBitmap.ofBytes? bs n) := by
  unfold ofBytes?
  split
  · next hlt => simp [NullBitmap.ofBytes?, Nat.not_le_of_lt hlt]
  · next hge =>
      have hone : 1 ≤ 1 <<< (n % 8) := by
        rw [Nat.one_shiftLeft]
        exact Nat.one_le_two_pow
      rw [slice_of_le (Nat.zero_le _) (Nat.le_of_not_lt hge), ok_bind,
        demand_of (Nat.mod_lt _ (by decide)), ok_bind, sub_of_le hone]
      rfl

end

end PackedArray.Machine
