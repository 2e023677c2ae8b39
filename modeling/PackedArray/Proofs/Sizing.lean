import PackedArray.Proofs.FlatLayout

/-!
# PackedArray.Proofs.Sizing

The two passes over the elements of a new array.

The measuring pass adds up strides and has no cursor; the packing pass moves a
cursor, pads where it stands, and never asks for a stride.  They agree because every
element starts on a boundary: there the padding of the cursor is that of the element
alone.  So nothing that the packing pass could report is left to report.

* `Layout.fills_of_measureFrom` — measured elements fill a region of that size, one
  after the other;
* `NdArray.ofElements_failsOnly` — what making an array of elements can fail over;
* `NdArray.ofElements_fills` — both passes together.
-/

namespace PackedArray

variable {l : Layout} {xs : List Scalar} {size : Nat}

/-! ## the packing pass -/

@[simp] theorem Region.cursor_zeros (size : Nat) : (Region.zeros size).cursor = 0 := by
  simp [zeros, ofBytes]

@[simp] theorem Region.after_zeros (size : Nat) :
    (Region.zeros size).after = List.replicate size 0 := rfl

namespace Layout

/-- Packed in order, the elements fill a fresh region of this size. -/
structure Fills (l : Layout) (xs : List Scalar) (size : Nat) : Prop where
  /-- The size is the sum of the strides. -/
  size_eq : size = l.room xs
  size_le : size ≤ 0x3fffffff
  /-- A region of that size is there. -/
  alloc : allocData size = .ok (Region.zeros size)
  /-- Every element is stored: behind the room of those before it, on a boundary, and
  in no more and no less than its stride. -/
  store : ∀ front x back, xs = front ++ x :: back → ∃ r next stride,
    (Region.zeros size).storeAll l front = .ok r ∧
    r.cursor = l.room front ∧ l.align.width ∣ r.cursor ∧
    l.stride x = .ok stride ∧ r.store l x = (next, .ok stride) ∧
    next.cursor = r.cursor + stride ∧
    (Region.zeros size).storeAll l (front ++ [x]) = .ok next
  /-- The cursor ends where the region does. -/
  filled : ∃ r, (Region.zeros size).storeAll l xs = .ok r ∧ r.cursor = size ∧ r.remaining = 0

/-- One element further into a region that is filled from the front. -/
theorem store_of_pack {front back : List Scalar} {x : Scalar}
    (hpack : ∀ y ∈ front ++ x :: back, ∃ bs, l.pack y = .ok bs)
    (hroom : ((front ++ x :: back).flatMap l.block).length = size) :
    let r := (Region.zeros size).advance (front.flatMap l.block)
    (Region.zeros size).storeAll l front = .ok r ∧
      r.store l x = (r.advance (l.block x), .ok (l.block x).length) ∧
      (Region.zeros size).storeAll l (front ++ [x]) = .ok (r.advance (l.block x)) := by
  intro r
  have hfront : ∀ y ∈ front, ∃ bs, l.pack y = .ok bs := fun y hy =>
    hpack y (List.mem_append_left _ hy)
  obtain ⟨bs, hp⟩ := hpack x (by simp)
  have hlast : ∀ y ∈ front ++ [x], ∃ bs, l.pack y = .ok bs := by
    intro y hy
    obtain hy | hy := List.mem_append.mp hy
    · exact hfront y hy
    · exact ⟨bs, List.eq_of_mem_singleton hy ▸ hp⟩
  rw [List.flatMap_append, List.flatMap_cons, List.length_append, List.length_append] at hroom
  have hcursor : l.align.width ∣ r.cursor := by
    rw [Region.cursor_advance, Region.cursor_zeros, Nat.zero_add,
      length_flatMap_block_eq_room hfront]
    exact dvd_room hfront
  have hzero : ∀ b ∈ r.after, b = 0 := fun b hb => by
    rw [Region.after_advance, Region.after_zeros] at hb
    exact List.eq_of_mem_replicate (List.mem_of_mem_drop hb)
  have hafter : r.after.length = size - (front.flatMap l.block).length := by
    rw [Region.after_advance, Region.after_zeros, List.length_drop, List.length_replicate]
  have hsnoc : (front ++ [x]).flatMap l.block = front.flatMap l.block ++ l.block x := by
    rw [List.flatMap_append, List.flatMap_singleton]
  refine ⟨Region.storeAll_zeros hfront (by omega),
    Region.store_eq hp hcursor hzero (by omega), ?_⟩
  rw [Region.storeAll_zeros hlast (by rw [hsnoc, List.length_append]; omega), hsnoc,
    Region.advance_advance]

/-- **Measured elements fill a region of that size.** -/
theorem fills_of_measureFrom (h : l.measureFrom 0 xs = .ok size) : l.Fills xs size := by
  obtain ⟨hpack, hsize, hle⟩ := pack_of_measureFrom h (Nat.zero_le _)
  rw [Nat.zero_add] at hsize
  refine ⟨hsize.trans (length_flatMap_block_eq_room hpack), hle, allocData_eq_ok hle, ?_, ?_⟩
  · rintro front x back rfl
    obtain ⟨bs, hp⟩ := hpack x (by simp)
    have hfront : ∀ y ∈ front, ∃ bs, l.pack y = .ok bs := fun y hy =>
      hpack y (List.mem_append_left _ hy)
    have hcursor : ((Region.zeros size).advance (front.flatMap l.block)).cursor = l.room front := by
      rw [Region.cursor_advance, Region.cursor_zeros, Nat.zero_add,
        length_flatMap_block_eq_room hfront]
    obtain ⟨hbefore, hstore, hafter⟩ := store_of_pack hpack hsize.symm
    exact ⟨_, _, _, hbefore, hcursor, hcursor ▸ dvd_room hfront, stride_eq_of_pack hp, hstore,
      rfl, hafter⟩
  · refine ⟨_, Region.storeAll_zeros hpack (Nat.le_of_eq hsize.symm), ?_, ?_⟩
    · rw [Region.cursor_advance, Region.cursor_zeros, Nat.zero_add, hsize]
    · rw [Region.remaining, Region.after_advance, Region.after_zeros, List.length_drop,
        List.length_replicate, hsize, Nat.sub_self]

end Layout

/-! ## what can fail -/

/-- The error does not come from packed bytes and not from a request for storage. -/
def ArrayError.BeforePacking (e : ArrayError) : Prop :=
  (∀ defect, e ≠ .malformed defect) ∧ ∀ cause, e ≠ .alloc cause

open ArrayError (BeforePacking)

namespace Layout

theorem stride_failsOnly (l : Layout) (x : Scalar) : FailsOnly BeforePacking (l.stride x) := by
  unfold stride
  split
  · cases x with
    | word w => exact .error (by simp [BeforePacking])
    | ref payload => exact .ok _
  · next hv =>
      -- a fixed width is refused for the width alone
      have hpack : FailsOnly BeforePacking (l.pack x) := by
        unfold pack
        rw [if_neg hv]
        split
        · exact .error (by simp [BeforePacking])
        · split
          · exact .ok _
          · split
            · exact .ok _
            · exact .error (by simp [BeforePacking])
      exact .map hpack

theorem measureFrom_failsOnly (l : Layout) (acc : Nat) (xs : List Scalar) :
    FailsOnly BeforePacking (l.measureFrom acc xs) := by
  induction xs generalizing acc with
  | nil => exact .ok acc
  | cons x xs ih =>
      rw [measureFrom]
      split
      · next e he => exact .error (l.stride_failsOnly x e he)
      · split
        · exact ih _
        · exact .error (by simp [BeforePacking])

end Layout

theorem checkDimensions_failsOnly (dims lbounds : List Int32) :
    FailsOnly BeforePacking (checkDimensions dims lbounds) := by
  unfold checkDimensions
  split
  · exact .error (by simp [BeforePacking])
  · split
    · exact .error (by simp [BeforePacking])
    · exact .ok ()

theorem itemCount_failsOnly (dims : List Int32) : FailsOnly BeforePacking (itemCount dims) := by
  unfold itemCount
  split
  · exact .ok _
  · exact .error (by simp [BeforePacking])

namespace NdArray

variable (elems : List Scalar) (nulls : Option (List Bool)) (dims lbounds : List Int32) (tag : Tag)
  (l : Layout)

theorem nullFlags_failsOnly (n : Nat) : FailsOnly BeforePacking (nullFlags n nulls) := by
  unfold nullFlags
  split
  · exact .ok _
  · split
    · exact .error (by simp [BeforePacking])
    · exact .ok _

/-- **Packing has nothing to report**: an array of elements is refused for its shape,
for what it is made of, or for its size. -/
theorem ofElements_failsOnly :
    FailsOnly BeforePacking (ofElements elems nulls dims lbounds tag l) := by
  unfold ofElements
  refine .bind (checkDimensions_failsOnly dims lbounds) fun _ _ => ?_
  split
  · exact .ok _
  · refine .bind (itemCount_failsOnly dims) fun n _ => ?_
    refine .refuse (by simp [BeforePacking]) fun _ => ?_
    refine .bind (nullFlags_failsOnly nulls n) fun flags _ => ?_
    have hnominal : FailsOnly BeforePacking (l.checkNominal n) := by
      unfold Layout.checkNominal
      split
      · exact .error (by simp [BeforePacking])
      · exact .ok ()
    refine .bind hnominal fun _ _ => ?_
    rw [packData_eq]
    refine .bind (.map (l.measureFrom_failsOnly 0 _)) fun data _ => ?_
    split
    · exact .ok _
    · exact .ok _

/-! ## both passes -/

/-- **Measuring and packing agree**: making an array of elements never finds packed
bytes at fault and never lacks storage.  Elements that have been measured are all
stored, each in its stride, and fill the region to its end; and the data of an array
that is made is as long as the strides of its present elements together. -/
theorem ofElements_fills :
    (∀ defect, ofElements elems nulls dims lbounds tag l ≠ .error (.malformed defect)) ∧
    (∀ cause, ofElements elems nulls dims lbounds tag l ≠ .error (.alloc cause)) ∧
    (∀ xs size, l.measureFrom 0 xs = .ok size → l.Fills xs size) ∧
    ∀ a, ofElements elems nulls dims lbounds tag l = .ok a → ∃ n flags,
      itemCount dims = .ok n ∧ nullFlags n nulls = .ok flags ∧
      l.measureFrom 0 (presentElements (elems.take n) flags) = .ok a.data.length ∧
      a.data.length = l.room (presentElements (elems.take n) flags) ∧
      a.data.length ≤ 0x3fffffff := by
  have hfails := ofElements_failsOnly elems nulls dims lbounds tag l
  refine ⟨fun defect h => (hfails _ h).1 defect rfl, fun cause h => (hfails _ h).2 cause rfl,
    fun xs size => Layout.fills_of_measureFrom, fun a h => ?_⟩
  obtain ⟨rfl, -, rfl⟩ | ⟨-, -, n, flags, size, hn, -, hflags, -, hsize, rfl⟩ :=
    ofElements_eq_ok_iff.mp h
  · exact ⟨0, [], rfl, nullFlags_eq_ok_iff.mpr ⟨rfl, rfl⟩, rfl, rfl, Nat.zero_le _⟩
  · obtain ⟨hpack, hlen, -⟩ := Layout.pack_of_measureFrom hsize (Nat.zero_le _)
    rw [Nat.zero_add] at hlen
    have hfills := Layout.fills_of_measureFrom hsize
    subst hlen
    exact ⟨n, flags, hn, hflags, hsize, hfills.size_eq, hfills.size_le⟩

/-- Blocks too short and too long under a width that is no multiple of its boundary,
around a null whose element no layout takes. -/
theorem ofElements_fills_padded :
    let elems := [.ref [1, 2, 3], .word 7, .ref [9, 8, 7, 6, 5, 4, 3]]
    let flags := [false, true, false]
    let l : Layout := ⟨5, false, .int⟩
    let a := assemble Tag.bool [3] [1] flags [1, 2, 3, 0, 0, 0, 0, 0, 9, 8, 7, 6, 5, 0, 0, 0]
    ofElements elems (some flags) [3] [1] Tag.bool l = .ok a ∧
      l.measureFrom 0 (presentElements elems flags) = .ok 16 ∧
      l.Fills (presentElements elems flags) 16 ∧
      ∃ n given, itemCount [3] = .ok n ∧ nullFlags n (some flags) = .ok given ∧
        l.measureFrom 0 (presentElements (elems.take n) given) = .ok a.data.length ∧
        a.data.length = l.room (presentElements (elems.take n) given) ∧
        a.data.length ≤ 0x3fffffff := by
  intro elems flags l a
  have hmade : ofElements elems (some flags) [3] [1] Tag.bool l = .ok a := by
    simp only [elems, flags, l, a]
    rfl
  have hmeasure : l.measureFrom 0 (presentElements elems flags) = .ok 16 := by
    simp only [elems, flags, l]
    rfl
  obtain ⟨-, -, hfills, hdata⟩ := ofElements_fills elems (some flags) [3] [1] Tag.bool l
  exact ⟨hmade, hmeasure, hfills _ _ hmeasure, hdata a hmade⟩

end NdArray

end PackedArray
