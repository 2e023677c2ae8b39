import PackedArray.NdArray.Read
import PackedArray.Proofs.Bitmap
import PackedArray.Proofs.PackedData

/-!
# PackedArray.Proofs.Walk

Walks over data that holds items.  `Layout.Packed` says what packed bytes
hold; `NdArray.Holds` adds that the null bitmap of the array agrees.  A walk
then yields those items and nothing else, and ends at the end of the data.

* `Walk.next?_eq_some_iff` — what one step makes of an item;
* `Walk.steps_of_packed` — what a walk yields from any aligned position on;
* `NdArray.run_walk_of_holds` — a walk over the whole array;
* `NdArray.toElements_of_holds`, `NdArray.toScalars_of_holds` — both readers.
-/

namespace PackedArray

/-! ## steps of a walk -/

namespace Walk

/-- What one step makes of the next item: a null, the scalar at the front of the bytes
ahead, or the error of unpacking them, which moves the position to the end. -/
inductive Step (w : Walk) : NdArray.Entry → Walk → Prop
  | null : w.array.isNullAt w.index = true →
      Step w (.ok none) { w with index := w.index + 1 }
  | present {x : Scalar} {taken : Nat} : w.array.isNullAt w.index = false →
      w.layout.unpack w.rest = .ok (x, taken) → Step w (.ok (some x)) (w.advance taken)
  | failed {e : ArrayError} : w.array.isNullAt w.index = false →
      w.layout.unpack w.rest = .error e → Step w (.error e) { w with index := w.array.size }

theorem next?_eq_none_iff {w : Walk} : w.next? = none ↔ w.array.size ≤ w.index := by
  unfold next?
  split
  · next hlt =>
      have hne : ¬w.array.size ≤ w.index := Nat.not_le.mpr hlt
      split
      · simp [hne]
      · split <;> simp [hne]
  · next hge => simp [Nat.le_of_not_lt hge]

/-- Where items are left, a walk takes a step. -/
theorem next?_eq_some_iff {w next : Walk} {entry : NdArray.Entry} :
    w.next? = some (entry, next) ↔ w.index < w.array.size ∧ w.Step entry next := by
  constructor
  · intro h
    unfold next? at h
    split at h
    · next hlt =>
        refine ⟨hlt, ?_⟩
        split at h
        · next hnull =>
            cases h
            exact .null hnull
        · next hnull =>
            rw [Bool.not_eq_true] at hnull
            split at h
            · next hunpack =>
                cases h
                exact .present hnull hunpack
            · next hunpack =>
                cases h
                exact .failed hnull hunpack
    · contradiction
  · rintro ⟨hlt, hstep⟩
    cases hstep with
    | null hnull => rw [next?, if_pos hlt, if_pos hnull]
    | present hnull hunpack | failed hnull hunpack =>
        rw [next?, if_pos hlt, if_neg (by simp [hnull]), hunpack]

theorem steps_succ_of_next? {w next : Walk} {entry : NdArray.Entry} (n : Nat)
    (h : w.next? = some (entry, next)) :
    w.steps (n + 1) = (entry :: (next.steps n).1, (next.steps n).2) := by
  rw [steps, h]

/-- Stepping over an image and its padding leaves the bytes that follow. -/
theorem advance_of_rest {w : Walk} {image padding data : List UInt8}
    (hrest : w.rest = image ++ padding ++ data)
    (halign : w.layout.align.width ∣ w.offset)
    (hpad : image.length + padding.length = w.layout.align.pad image.length) :
    w.advance image.length = { w with
      index := w.index + 1
      offset := w.offset + (image ++ padding).length
      rest := data } := by
  have hoffset : w.layout.align.pad (w.offset + image.length) =
      w.offset + (image ++ padding).length := by
    rw [Align.pad_add halign, List.length_append, hpad]
  unfold advance
  simp only [hoffset, Nat.add_sub_cancel_left, hrest, List.drop_left' rfl]

/-- **A walk yields what the data holds**: from an aligned position, the
entries are the items that the bytes ahead hold, if the bitmap of the array
marks the same items null. -/
theorem steps_of_packed {l : Layout} {data : List UInt8} {items : List (Option Scalar)}
    (h : l.Packed data items) (w : Walk) (hlayout : w.layout = l) (hrest : w.rest = data)
    (halign : l.align.width ∣ w.offset) (hsize : w.index + items.length = w.array.size)
    (hnulls : ∀ i item, items[i]? = some item → w.array.isNullAt (w.index + i) = item.isNone) :
    w.steps items.length = (items.map .ok, { w with
      index := w.array.size
      offset := w.offset + data.length
      rest := [] }) := by
  induction h generalizing w with
  | nil =>
      obtain ⟨array, layout, index, offset, rest⟩ := w
      simp only [List.length_nil, Nat.add_zero] at hlayout hrest hsize
      subst hlayout hrest hsize
      rfl
  | @null data items hp ih =>
      have hnull : w.array.isNullAt w.index = true := hnulls 0 none rfl
      rw [List.length_cons] at hsize
      rw [List.length_cons, steps_succ_of_next? _ (next?_eq_some_iff.mpr ⟨by omega, .null hnull⟩),
        ih { w with index := w.index + 1 } hlayout hrest halign (by simp only; omega)]
      · rfl
      · intro i item hi
        have := hnulls (i + 1) item hi
        simpa [Nat.add_assoc, Nat.add_comm 1 i] using this
  | @present image padding data x items hunpack hpad hp ih =>
      have hnull : w.array.isNullAt w.index = false := hnulls 0 (some x) rfl
      rw [List.length_cons] at hsize
      have hfront : w.layout.unpack w.rest = .ok (x, image.length) := by
        rw [hlayout, hrest, List.append_assoc]
        exact hunpack _
      have hadvance := advance_of_rest hrest (by rwa [hlayout]) (by rwa [hlayout])
      have hdvd : l.align.width ∣ (image ++ padding).length := by
        rw [List.length_append, hpad]
        exact l.align.dvd_pad _
      rw [List.length_cons,
        steps_succ_of_next? _ (next?_eq_some_iff.mpr ⟨by omega, .present hnull hfront⟩),
        hadvance, ih { w with
            index := w.index + 1
            offset := w.offset + (image ++ padding).length
            rest := data } hlayout rfl (Nat.dvd_add halign hdvd) (by simp only; omega)]
      · simp [Nat.add_assoc]
      · intro i item hi
        have := hnulls (i + 1) item hi
        simpa [Nat.add_assoc, Nat.add_comm 1 i] using this

end Walk

/-! ## reading an array -/

namespace NdArray

/-- Under a layout an array holds these items: its data does, and the absent
ones are those that it marks null. -/
structure Holds (a : NdArray) (l : Layout) (items : List (Option Scalar)) : Prop where
  packed : l.Packed a.data items
  nulls : items.map Option.isNone = a.nullMask

theorem Holds.length_items {a : NdArray} {l : Layout} {items : List (Option Scalar)}
    (h : a.Holds l items) : items.length = a.size := by
  rw [← length_nullMask, ← h.nulls, List.length_map]

theorem Holds.isNullAt_eq {a : NdArray} {l : Layout} {items : List (Option Scalar)}
    (h : a.Holds l items) {i : Nat} {item : Option Scalar} (hi : items[i]? = some item) :
    a.isNullAt i = item.isNone := by
  have hlt : i < a.size := by
    rw [← h.length_items]
    exact (List.getElem?_eq_some_iff.mp hi).1
  have hflag := congrArg (·[i]?) h.nulls
  simpa [hi, getElem?_nullMask hlt, eq_comm] using hflag

/-- A walk over an array yields the items that it holds, and ends with the
data. -/
theorem run_walk_of_holds {a : NdArray} {l : Layout} {items : List (Option Scalar)}
    (h : a.Holds l items) :
    (a.walk l).run = (items.map .ok, ⟨a, l, a.size, a.data.length, []⟩) := by
  have hremaining : (a.walk l).remaining = items.length := h.length_items.symm
  have hsteps := Walk.steps_of_packed h.packed (a.walk l) rfl rfl (Nat.dvd_zero _)
    ((Nat.zero_add _).trans h.length_items) (fun i item hi => by
      rw [show (a.walk l).index = 0 from rfl, Nat.zero_add]
      exact h.isNullAt_eq hi)
  rw [Walk.run, hremaining, hsteps]
  simp [walk]

theorem entries_of_holds {a : NdArray} {l : Layout} {items : List (Option Scalar)}
    (h : a.Holds l items) : a.entries l = items.map .ok := by
  rw [entries, run_walk_of_holds h]

/-- Every item is read back, nulls by flag. -/
theorem toElements_of_holds {a : NdArray} {l : Layout} {items : List (Option Scalar)}
    (h : a.Holds l items) : a.toElements a.tag l = .ok (Elements.ofItems items) := by
  rw [toElements, checkTag, if_pos rfl, ok_bind, entries_of_holds h, mapM_id_map_ok]
  rfl

/-- Where nulls cannot be taken, every item is read back unless some item is
null. -/
theorem toScalars_of_holds {a : NdArray} {l : Layout} {items : List (Option Scalar)}
    (h : a.Holds l items) :
    a.toScalars a.tag l =
      if none ∈ items then .error .nullNotAllowed else .ok (items.map (·.getD Scalar.zero)) := by
  rw [toScalars, checkTag, if_pos rfl, ok_bind, entries_of_holds h]
  clear h
  induction items with
  | nil => rfl
  | cons item items ih =>
      rw [List.map_cons, List.mapM_cons]
      cases item with
      | none => rfl
      | some x =>
          rw [requirePresent, ok_bind, ih]
          by_cases hnone : none ∈ items
          · simp [hnone, bind, Except.bind]
          · simp [hnone, pure, Except.pure]

end NdArray

end PackedArray
