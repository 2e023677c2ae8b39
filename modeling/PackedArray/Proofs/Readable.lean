import PackedArray.Proofs.Walk
import PackedArray.Proofs.WellFormed

/-!
# PackedArray.Proofs.Readable

Numeric arrays are read to the end.

The length of the data is all that has to be right: whatever bytes a filled
array carries, they hold an item for each that is present, so a walk over them
neither runs out of bytes nor leaves any.

* `NdArray.Filled.exists_holds` — filled arrays hold items;
* `NdArray.Obtained.readable` — every array that can be obtained is read to the end.
-/

namespace PackedArray

/-! ## numeric items -/

namespace Kind

variable {k : Kind} {image padding : List UInt8} {x : Scalar}

/-- What a numeric item is unpacked from is its image alone. -/
theorem image_of_unpack (h : ∀ rest, k.layout.unpack (image ++ rest) = .ok (x, image.length)) :
    image.length = k.layout.len.toNat ∧ x = k.layout.ofImage image := by
  obtain ⟨front, rest, himage, hlen, hreads⟩ := Layout.exists_reads_of_unpack (h [])
  rw [List.append_nil] at himage
  have hrest : rest = [] := by
    rw [himage, List.length_append] at hlen
    exact List.eq_nil_of_length_eq_zero (by omega)
  rw [hrest, List.append_nil] at himage
  subst himage
  rw [Layout.Reads, Layout.isVariable_eq_false k.len_layout_pos] at hreads
  exact ⟨hreads.2.2.1, hreads.2.2.2⟩

theorem padding_eq_nil (hlen : image.length = k.layout.len.toNat)
    (hpad : image.length + padding.length = k.layout.align.pad image.length) : padding = [] := by
  have hsize := k.itemSize_eq
  rw [itemSize, ← hlen] at hsize
  exact List.eq_nil_of_length_eq_zero (by omega)

end Kind

/-! ## numeric arrays -/

namespace NdArray

variable {a : NdArray} {k : Kind}

/-- The data of a filled array holds items, whatever its bytes are. -/
theorem Filled.exists_holds (h : a.Filled) (hk : a.tag.kind? = some k) :
    ∃ items, a.Holds k.layout items := by
  have hdata : a.data.length = a.nullMask.count false * k.itemSize := h k hk
  obtain ⟨items, hpacked, hnulls⟩ := Layout.exists_packed_of_length k.len_layout_pos
    (.inr k.toNat_len_mem_wordWidths) hdata
  exact ⟨items, hpacked, hnulls⟩

/-- The items are null where the array says so. -/
theorem Holds.getElem?_eq_none_iff {l : Layout} {items : List (Option Scalar)}
    (h : a.Holds l items) {i : Nat} (hi : i < a.size) :
    items[i]? = some none ↔ a.isNullAt i = true := by
  rw [← h.length_items] at hi
  have hitem := List.getElem?_eq_getElem hi
  rw [hitem, h.isNullAt_eq hitem, Option.some.injEq, Option.isNone_iff_eq_none]

theorem Holds.none_mem_iff {l : Layout} {items : List (Option Scalar)} (h : a.Holds l items) :
    none ∈ items ↔ ∃ i < a.size, a.isNullAt i = true := by
  constructor
  · intro hmem
    obtain ⟨i, hi⟩ := List.mem_iff_getElem?.mp hmem
    have hlt := (List.getElem?_eq_some_iff.mp hi).1
    rw [h.length_items] at hlt
    exact ⟨i, hlt, (h.getElem?_eq_none_iff hlt).mp hi⟩
  · rintro ⟨i, hlt, hnull⟩
    exact List.mem_of_getElem? ((h.getElem?_eq_none_iff hlt).mpr hnull)

/-- **Numeric arrays are read to the end**: however an array was obtained, if
its tag is numeric its data has the items that are not null and no more.  A walk
yields an entry for each item, never an error, a null where the bitmap says so,
and ends with the data.  So reading with null flags always succeeds, and where
nulls cannot be taken it fails only for nulls. -/
theorem Obtained.readable (h : Obtained Tag.Admits a) (hk : a.tag.kind? = some k) :
    a.data.length = (a.size - (List.range a.size).countP a.isNullAt) * k.itemSize ∧
    (∃ items, (a.walk k.layout).run = (items.map .ok, ⟨a, k.layout, a.size, a.data.length, []⟩) ∧
      items.length = a.size ∧ (∀ i < a.size, items[i]? = some none ↔ a.isNullAt i = true) ∧
      a.toElements a.tag k.layout = .ok (Elements.ofItems items)) ∧
    ∀ e, a.toScalars a.tag k.layout = .error e ↔
      e = .nullNotAllowed ∧ ∃ i < a.size, a.isNullAt i = true := by
  obtain ⟨items, hholds⟩ := h.filled.exists_holds hk
  refine ⟨?_, ⟨items, run_walk_of_holds hholds, hholds.length_items,
    fun i hi => hholds.getElem?_eq_none_iff hi, toElements_of_holds hholds⟩, fun e => ?_⟩
  · rw [h.filled k hk, count_false_nullMask]
  · rw [toScalars_of_holds hholds, ← hholds.none_mem_iff]
    split
    · next hnone => simp [hnone, eq_comm]
    · next hnone => simp [hnone]

/-- Two small integers around a null, from the trust boundary. -/
theorem readable_decoded :
    let a := assemble Tag.int2 [3] [1] [false, true, false] [255, 127, 1, 128]
    let buf := [144, 0, 0, 0, 1, 0, 0, 0, 32, 0, 0, 0, 1, 0, 0, 0, 3, 0, 0, 0, 1, 0, 0, 0,
      5, 0, 0, 0, 0, 0, 0, 0, 255, 127, 1, 128]
    let l := (Kind.int .two).layout
    decode buf = .ok a ∧ a.tag.kind? = some (.int .two) ∧
    a.data.length = (a.size - (List.range a.size).countP a.isNullAt) * (Kind.int .two).itemSize ∧
    (∃ items, (a.walk l).run = (items.map .ok, ⟨a, l, a.size, a.data.length, []⟩) ∧
      items.length = a.size ∧ (∀ i < a.size, items[i]? = some none ↔ a.isNullAt i = true) ∧
      a.toElements a.tag l = .ok (Elements.ofItems items)) ∧
    ∀ e, a.toScalars a.tag l = .error e ↔
      e = .nullNotAllowed ∧ ∃ i < a.size, a.isNullAt i = true := by
  intro a buf l
  have hdecode : decode buf = .ok a := by
    simp only [buf, a]
    exact eq_ok_of_toOption (by decide +kernel)
  have hk : a.tag.kind? = some (.int .two) := by decide
  exact ⟨hdecode, hk, (Obtained.decode hdecode).readable hk⟩

end NdArray

end PackedArray
