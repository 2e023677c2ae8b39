import PackedArray.NdArray.Build
import PackedArray.Proofs.Packing
import PackedArray.Proofs.Outcome

/-!
# PackedArray.Proofs.PackedData

The data section of an array: the packed elements one after the other, nulls
left out.

`Layout.Packed l data items` says that `data` holds `items` under the layout
`l`.  It is the common ground of building and reading: every way of making an
array establishes it, and a walk over data of which it holds is a walk over
`items`.

* `packData_eq` — the measuring pass decides alone whether elements can be
  packed, and packing gives the blocks in a row;
* `Layout.packed_flatMap_block` — blocks in a row hold the canonical forms;
* `Layout.exists_packed_of_length` — under a fixed width any bytes of the right
  length hold something.
-/

namespace PackedArray

/-! ## what packed bytes hold -/

/-- Packed bytes and the items that they hold, in order.  A null takes no
room; a present item takes its image, read the same whatever follows, and the
padding after it. -/
inductive Layout.Packed (l : Layout) : List UInt8 → List (Option Scalar) → Prop
  | nil : l.Packed [] []
  | null {data : List UInt8} {items : List (Option Scalar)} :
      l.Packed data items → l.Packed data (none :: items)
  | present {image padding data : List UInt8} {x : Scalar} {items : List (Option Scalar)} :
      (∀ rest, l.unpack (image ++ rest) = .ok (x, image.length)) →
      image.length + padding.length = l.align.pad image.length →
      l.Packed data items → l.Packed (image ++ padding ++ data) (some x :: items)

/-- Nothing is left out where no flag is set. -/
theorem presentElements_replicate (xs : List Scalar) :
    presentElements xs (List.replicate xs.length false) = xs := by
  induction xs with
  | nil => rfl
  | cons x xs ih =>
      rw [List.length_cons, List.replicate_succ, presentElements_cons_false, ih]

namespace Layout

/-- The items of an array, from elements and null flags: the canonical form
of every element that is not null. -/
def itemsOf (l : Layout) (elems : List Scalar) (nulls : List Bool) : List (Option Scalar) :=
  List.zipWith (fun x null => if null then none else some (l.canonical x)) elems nulls

/-- The blocks of elements, one after the other, hold their canonical
forms. -/
theorem packed_flatMap_block {l : Layout} {elems : List Scalar} {nulls : List Bool}
    (h : ∀ x ∈ presentElements elems nulls, ∃ bs, l.pack x = .ok bs) :
    l.Packed ((presentElements elems nulls).flatMap l.block) (l.itemsOf elems nulls) := by
  induction elems generalizing nulls with
  | nil => exact .nil
  | cons x elems ih =>
      cases nulls with
      | nil => exact .nil
      | cons null nulls =>
          cases null with
          | true => exact .null (ih h)
          | false =>
              rw [presentElements_cons_false] at h ⊢
              obtain ⟨bs, hp⟩ := h x List.mem_cons_self
              have hrest := ih fun y hy => h y (List.mem_cons_of_mem x hy)
              have hle := l.align.le_pad bs.length
              rw [List.flatMap_cons, block_eq_of_pack hp]
              refine .present (unpack_append hp) ?_ hrest
              rw [List.length_replicate]
              omega

/-- Under a fixed width all blocks take the same room. -/
theorem length_flatMap_block {l : Layout} (hv : l.isVariable = false) {xs : List Scalar}
    (h : ∀ x ∈ xs, ∃ bs, l.pack x = .ok bs) :
    (xs.flatMap l.block).length = xs.length * l.align.pad l.len.toNat := by
  induction xs with
  | nil => simp
  | cons x xs ih =>
      obtain ⟨⟨bs, hp⟩, hpack⟩ := List.forall_mem_cons.mp h
      have hlen : bs.length = l.len.toNat := by
        rw [((pack_eq_ok_iff hv).mp hp).2.2, Scalar.length_lead]
      rw [List.flatMap_cons, List.length_append, length_block_of_pack hp, hlen, ih hpack,
        List.length_cons, Nat.succ_mul, Nat.add_comm]

/-- Under a fixed width, bytes that are long enough hold what their image
stands for, and after its padding what the rest holds. -/
theorem packed_cons_of_drop {l : Layout} (hlen : 0 < l.len)
    (hwidth : l.byValue = false ∨ l.len.toNat ∈ Scalar.wordWidths) {data : List UInt8}
    {items : List (Option Scalar)} (hle : l.align.pad l.len.toNat ≤ data.length)
    (h : l.Packed (data.drop (l.align.pad l.len.toNat)) items) :
    l.Packed data (some (l.ofImage (data.take l.len.toNat)) :: items) := by
  have hpad := l.align.le_pad l.len.toNat
  have himage : (data.take l.len.toNat).length = l.len.toNat :=
    List.length_take_of_le (by omega)
  have hdrop : data.drop (l.align.pad l.len.toNat) =
      (data.drop l.len.toNat).drop (l.align.pad l.len.toNat - l.len.toNat) := by
    rw [List.drop_drop, Nat.add_sub_cancel' hpad]
  have hsplit : data.take l.len.toNat ++
      (data.drop l.len.toNat).take (l.align.pad l.len.toNat - l.len.toNat) ++
      data.drop (l.align.pad l.len.toNat) = data := by
    rw [hdrop, List.append_assoc, List.take_append_drop, List.take_append_drop]
  have hp : l.Packed (data.take l.len.toNat ++
      (data.drop l.len.toNat).take (l.align.pad l.len.toNat - l.len.toNat) ++
      data.drop (l.align.pad l.len.toNat))
      (some (l.ofImage (data.take l.len.toNat)) :: items) := by
    refine .present (unpack_image_append hlen hwidth himage) ?_ h
    rw [himage, List.length_take_of_le (by rw [List.length_drop]; omega)]
    omega
  rwa [hsplit] at hp

/-- Under a fixed width, bytes that are as many as the present items take hold
items with just these nulls. -/
theorem exists_packed_of_length {l : Layout} (hlen : 0 < l.len)
    (hwidth : l.byValue = false ∨ l.len.toNat ∈ Scalar.wordWidths) {nulls : List Bool}
    {data : List UInt8} (h : data.length = nulls.count false * l.align.pad l.len.toNat) :
    ∃ items, l.Packed data items ∧ items.map Option.isNone = nulls := by
  induction nulls generalizing data with
  | nil =>
      have hnil : data = [] := List.eq_nil_of_length_eq_zero (by simpa using h)
      subst hnil
      exact ⟨[], .nil, rfl⟩
  | cons null nulls ih =>
      cases null with
      | true =>
          obtain ⟨items, hp, hnulls⟩ := ih (by simpa using h)
          exact ⟨none :: items, .null hp, by simp [hnulls]⟩
      | false =>
          have hroom : data.length = nulls.count false * l.align.pad l.len.toNat +
              l.align.pad l.len.toNat := by
            rw [h, List.count_cons_self, Nat.succ_mul]
          have hrest : (data.drop (l.align.pad l.len.toNat)).length =
              nulls.count false * l.align.pad l.len.toNat := by
            rw [List.length_drop]
            omega
          obtain ⟨items, hp, hnulls⟩ := ih hrest
          exact ⟨_, packed_cons_of_drop hlen hwidth (by omega) hp, by simp [hnulls]⟩

end Layout

/-! ## the two passes of building -/

namespace Layout

/-- Elements that have been measured can be packed, and the measure is the
length of their blocks. -/
theorem pack_of_measureFrom {l : Layout} {acc size : Nat} {xs : List Scalar}
    (h : l.measureFrom acc xs = .ok size) (hacc : acc ≤ maxDataSize) :
    (∀ x ∈ xs, ∃ bs, l.pack x = .ok bs) ∧ size = acc + (xs.flatMap l.block).length ∧
      size ≤ maxDataSize := by
  induction xs generalizing acc with
  | nil =>
      cases h
      simp [hacc]
  | cons x xs ih =>
      unfold measureFrom at h
      cases hs : l.stride x with
      | error e => simp [hs] at h
      | ok n =>
          simp only [hs] at h
          split at h
          · next hle =>
              obtain ⟨hpack, hsize, hmax⟩ := ih h hle
              obtain ⟨bs, hp, hn⟩ := exists_pack_of_stride hs
                (Nat.le_trans (Nat.le_add_left n acc) hle)
              refine ⟨List.forall_mem_cons.mpr ⟨⟨bs, hp⟩, hpack⟩, ?_, hmax⟩
              rw [List.flatMap_cons, List.length_append, length_block_of_pack hp, ← hn, hsize,
                Nat.add_assoc]
          · contradiction

end Layout

/-- On an aligned cursor, elements that can be packed fill a region of zeros
with their blocks. -/
theorem Region.storeAll_eq {l : Layout} {xs : List Scalar} {r : Region}
    (hpack : ∀ x ∈ xs, ∃ bs, l.pack x = .ok bs) (hcursor : l.align.width ∣ r.cursor)
    (hzero : ∀ b ∈ r.after, b = 0) (hroom : (xs.flatMap l.block).length ≤ r.after.length) :
    r.storeAll l xs = .ok (r.advance (xs.flatMap l.block)) := by
  induction xs generalizing r with
  | nil => rfl
  | cons x xs ih =>
      obtain ⟨bs, hp⟩ := hpack x List.mem_cons_self
      rw [List.flatMap_cons, List.length_append] at hroom
      have hdvd : l.align.width ∣ (l.block x).length := by
        rw [Layout.length_block_of_pack hp]
        exact l.align.dvd_pad _
      rw [storeAll, store_eq hp hcursor hzero (by omega)]
      simp only
      rw [ih (fun y hy => hpack y (List.mem_cons_of_mem x hy)) (Nat.dvd_add hcursor hdvd)
        (fun b hb => hzero b (List.mem_of_mem_drop hb))
        (by rw [after_advance, List.length_drop]; omega),
        List.flatMap_cons, advance_advance]

/-- Elements that can be packed fill a fresh region that has room for them from its front. -/
theorem Region.storeAll_zeros {l : Layout} {xs : List Scalar} {size : Nat}
    (hpack : ∀ x ∈ xs, ∃ bs, l.pack x = .ok bs) (hroom : (xs.flatMap l.block).length ≤ size) :
    (Region.zeros size).storeAll l xs = .ok ((Region.zeros size).advance (xs.flatMap l.block)) := by
  refine storeAll_eq hpack (Nat.dvd_zero _) (fun b hb => ?_) ?_
  · exact List.eq_of_mem_replicate (List.mem_of_mem_drop hb)
  · simpa [Region.zeros, Region.ofBytes] using hroom

theorem admits_iff {size : Nat} : Quota.standard.admits size = true ↔ size ≤ maxDataSize :=
  decide_eq_true_iff

/-- Data is refused only for crossing the ceiling. -/
theorem reserveData_eq_ok_iff {size : Nat} : reserveData size = .ok () ↔ size ≤ maxDataSize := by
  unfold reserveData
  by_cases h : size ≤ maxDataSize
  · have hlimit : size ≤ Quota.addressLimit := Nat.le_trans h (by decide)
    simp [Quota.reserve_eq_ok h hlimit, h]
  · have hadmits : Quota.standard.admits size = false := by
      rwa [Bool.eq_false_iff, ne_eq, admits_iff]
    simp [Quota.reserve, hadmits, h]

theorem allocData_eq_ok {size : Nat} (h : size ≤ maxDataSize) :
    allocData size = .ok (Region.zeros size) := by
  rw [allocData, reserveData_eq_ok_iff.mpr h]
  rfl

/-- **Measuring decides**: elements are packed exactly when their measure stays
within the ceiling, and the packed data is the blocks in a row, without
slack. -/
theorem packData_eq (l : Layout) (xs : List Scalar) :
    NdArray.packData l xs = (l.measureFrom 0 xs).map fun _ => xs.flatMap l.block := by
  unfold NdArray.packData
  cases hm : l.measureFrom 0 xs with
  | error e => rfl
  | ok size =>
      obtain ⟨hpack, hsize, hmax⟩ := Layout.pack_of_measureFrom hm (Nat.zero_le _)
      rw [Nat.zero_add] at hsize
      have hstore := Region.storeAll_zeros hpack (Nat.le_of_eq hsize.symm)
      have hbytes : ((Region.zeros size).advance (xs.flatMap l.block)).bytes =
          xs.flatMap l.block := by
        rw [Region.bytes_advance, Region.bytes_zeros, overwrite, ← hsize]
        simp [Region.zeros, Region.ofBytes]
      rw [ok_bind, allocData_eq_ok hmax, ok_bind, hstore, ok_bind, hbytes]
      rfl

end PackedArray
