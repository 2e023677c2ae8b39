import PackedArray.Proofs.Construction
import PackedArray.Proofs.Walk

/-!
# PackedArray.Proofs.Elements

Elements into an array and out again.

Building and reading share no code: the builder stores through a cursor and
pads it, the reader recomputes every position from what it has read.
`NdArray.Holds` is where they meet, so that the round trip is no more than
"the array that was built holds these items" and "an array that holds items is
read back as those".

* `NdArray.holds_of_ofElements` — what an array of elements holds;
* `NdArray.toElements_ofElements` — the round trip, for every layout.
-/

namespace PackedArray

/-! ## items -/

namespace Layout

theorem length_itemsOf (l : Layout) {elems : List Scalar} {nulls : List Bool}
    (h : elems.length = nulls.length) : (l.itemsOf elems nulls).length = nulls.length := by
  rw [itemsOf, List.length_zipWith, h, Nat.min_self]

theorem getElem?_itemsOf (l : Layout) {elems : List Scalar} {nulls : List Bool} {i : Nat}
    {x : Scalar} {null : Bool} (hx : elems[i]? = some x) (hnull : nulls[i]? = some null) :
    (l.itemsOf elems nulls)[i]? = some (if null then none else some (l.canonical x)) := by
  rw [itemsOf, List.getElem?_zipWith, hx, hnull]

/-- The null flags are the items that are absent. -/
theorem map_isNone_itemsOf (l : Layout) {elems : List Scalar} {nulls : List Bool}
    (h : elems.length = nulls.length) : (l.itemsOf elems nulls).map Option.isNone = nulls := by
  refine List.ext_getElem (by rw [List.length_map, length_itemsOf l h]) fun i _ hi => ?_
  have hitem := getElem?_itemsOf l (List.getElem?_eq_getElem (h ▸ hi)) (List.getElem?_eq_getElem hi)
  rw [List.getElem_map, (List.getElem?_eq_some_iff.mp hitem).2]
  cases nulls[i] <;> rfl

end Layout

/-- An element whose flag is not set is among the present ones. -/
theorem mem_presentElements {elems : List Scalar} {nulls : List Bool} {i : Nat} {x : Scalar}
    (hx : elems[i]? = some x) (hnull : nulls[i]? = some false) :
    x ∈ presentElements elems nulls := by
  unfold presentElements
  refine List.mem_map.mpr ⟨(x, false), List.mem_filter.mpr ⟨?_, rfl⟩, rfl⟩
  exact List.mem_of_getElem? (List.getElem?_zip_eq_some.mpr ⟨hx, hnull⟩)

/-! ## the round trip -/

namespace NdArray

variable {elems : List Scalar} {nulls : Option (List Bool)} {dims lbounds : List Int32}
  {tag : Tag} {l : Layout} {a : NdArray}

theorem holds_empty (tag : Tag) (l : Layout) : (empty tag).Holds l [] where
  packed := .nil
  nulls := rfl

/-- An array of elements holds the canonical forms of those that are not
null, and every one of them could be packed. -/
theorem holds_of_ofElements (h : ofElements elems nulls dims lbounds tag l = .ok a) :
    ∃ n flags, itemCount dims = .ok n ∧ n ≤ elems.length ∧ nullFlags n nulls = .ok flags ∧
      (∀ x ∈ presentElements (elems.take n) flags, ∃ bs, l.pack x = .ok bs) ∧
      a.tag = tag ∧ a.size = n ∧ a.Holds l (l.itemsOf (elems.take n) flags) := by
  obtain ⟨rfl, -, rfl⟩ | ⟨-, hcheck, n, flags, size, hn, hle, hflags, -, hsize, rfl⟩ :=
    ofElements_eq_ok_iff.mp h
  · refine ⟨0, [], rfl, Nat.zero_le _, nullFlags_eq_ok_iff.mpr ⟨rfl, rfl⟩, ?_, rfl, rfl, ?_⟩
    · simp [presentElements]
    · simpa [Layout.itemsOf] using holds_empty tag l
  · obtain ⟨hpack, -, -⟩ := Layout.pack_of_measureFrom hsize (Nat.zero_le _)
    obtain ⟨rfl, -⟩ := nullFlags_eq_ok_iff.mp hflags
    have hlen : (elems.take flags.length).length = flags.length := List.length_take_of_le hle
    refine ⟨_, flags, hn, hle, hflags, hpack, rfl, size_assemble hcheck hn, ?_⟩
    refine ⟨Layout.packed_flatMap_block hpack, ?_⟩
    rw [Layout.map_isNone_itemsOf l hlen, nullMask_assemble hcheck hn]

/-- **Round trip of elements**: reading back an array of elements, with its
tag and layout, gives an entry for each item and the null flags that went in.
A null reads as the inline zero; a present element reads in canonical form,
and under a variable length it can only have been a block. -/
theorem toElements_ofElements (h : ofElements elems nulls dims lbounds tag l = .ok a) :
    ∃ n read, itemCount dims = .ok n ∧ a.size = n ∧ a.toElements tag l = .ok read ∧
      read.elems.length = n ∧ read.nulls.length = n ∧
      read.nulls = (nulls.getD (List.replicate n false)).take n ∧
      ∀ i < n,
        (read.nulls[i]? = some true → read.elems[i]? = some (.word 0)) ∧
        (read.nulls[i]? = some false → ∃ x, elems[i]? = some x ∧
          (l.isVariable = true → x.isRef = true) ∧ read.elems[i]? = some (l.canonical x)) := by
  obtain ⟨n, flags, hn, hle, hflags, hpack, rfl, hsize, hholds⟩ := holds_of_ofElements h
  obtain ⟨hlen, hmask⟩ := nullFlags_eq_ok_iff.mp hflags
  have htake : (elems.take n).length = flags.length := by
    rw [List.length_take_of_le hle, hlen]
  refine ⟨n, _, hn, hsize, toElements_of_holds hholds, ?_, ?_, ?_, ?_⟩
  · rw [Elements.ofItems, List.length_map, Layout.length_itemsOf l htake, hlen]
  · rw [Elements.ofItems, Layout.map_isNone_itemsOf l htake, hlen]
  · rw [Elements.ofItems, Layout.map_isNone_itemsOf l htake, hmask]
  · intro i hi
    have hx : (elems.take n)[i]? = some elems[i] := by
      rw [List.getElem?_take_of_lt hi, List.getElem?_eq_getElem (by omega)]
    simp only [Elements.ofItems, Layout.map_isNone_itemsOf l htake, List.getElem?_map]
    constructor
    · intro hnull
      rw [Layout.getElem?_itemsOf l hx hnull]
      rfl
    · intro hnull
      obtain ⟨bs, hp⟩ := hpack _ (mem_presentElements hx hnull)
      refine ⟨_, List.getElem?_eq_getElem (by omega), fun hv => ?_, ?_⟩
      · obtain ⟨payload, hpayload, -⟩ := (Layout.pack_eq_ok_iff_of_isVariable hv).mp hp
        rw [hpayload]
        rfl
      · rw [Layout.getElem?_itemsOf l hx hnull]
        rfl

/-- Blocks too short and too long under a width that is no multiple of its
boundary, around a null whose element no layout takes. -/
theorem toElements_ofElements_padded :
    let elems := [.ref [1, 2, 3], .word 7, .ref [9, 8, 7, 6, 5, 4, 3]]
    let l : Layout := ⟨5, false, .int⟩
    let data := [1, 2, 3, 0, 0, 0, 0, 0, 9, 8, 7, 6, 5, 0, 0, 0]
    let a := assemble Tag.bool [3] [1] [false, true, false] data
    ofElements elems (some [false, true, false]) [3] [1] Tag.bool l = .ok a ∧
      ∃ n read, itemCount [3] = .ok n ∧ a.size = n ∧ a.toElements Tag.bool l = .ok read ∧
        read.elems.length = n ∧ read.nulls.length = n ∧
        read.nulls = [false, true, false].take n ∧
        ∀ i < n,
          (read.nulls[i]? = some true → read.elems[i]? = some (.word 0)) ∧
          (read.nulls[i]? = some false → ∃ x, elems[i]? = some x ∧
            (l.isVariable = true → x.isRef = true) ∧ read.elems[i]? = some (l.canonical x)) := by
  intro elems l data a
  have h : ofElements elems (some [false, true, false]) [3] [1] Tag.bool l = .ok a := by
    simp only [elems, l, a, data]
    rfl
  exact ⟨h, toElements_ofElements h⟩

end NdArray

end PackedArray
