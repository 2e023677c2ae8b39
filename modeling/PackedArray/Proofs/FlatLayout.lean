import PackedArray.Proofs.Canonical
import PackedArray.Proofs.Elements

/-!
# PackedArray.Proofs.FlatLayout

Where everything lies in the flat form of an array of elements.

`NdArray.LaidOut` places every bit by the elements, the null flags and the shape
alone.  An element lies behind the room of the present elements before it, and
that room depends on how many of them there are, on how long each one is and on
its padding; so the items are placed by splitting the present elements at the one
that is looked for.

* `presentElements_split` — the present elements before an element, and after it;
* `Layout.length_flatMap_block_eq_room` — blocks in a row take the sum of their
  strides;
* `NdArray.laidOut_of_encode` — the flat form of an array of elements.
-/

namespace PackedArray

variable {l : Layout} {x : Scalar} {xs : List Scalar} {bs : List UInt8}

/-! ## the room of elements -/

namespace Layout

/-- What an element is packed to: the payload behind a word of four times its
length, the word counted in, or the first bytes of the scalar. -/
def Spells (l : Layout) (x : Scalar) (bs : List UInt8) : Prop :=
  if l.isVariable then
    ∃ payload, x = .ref payload ∧ bs = leBytes 4 (4 * (payload.length + 4)) ++ payload
  else bs = x.lead l.len.toNat

theorem spells_of_pack (h : l.pack x = .ok bs) : l.Spells x bs := by
  unfold Spells
  cases hv : l.isVariable with
  | true =>
      obtain ⟨payload, hx, -, hbs⟩ := (pack_eq_ok_iff_of_isVariable hv).mp h
      exact ⟨payload, hx, hbs⟩
  | false =>
      obtain ⟨-, -, hbs⟩ := (pack_eq_ok_iff hv).mp h
      exact hbs

/-- The sum of the strides of elements. -/
def room (l : Layout) (xs : List Scalar) : Nat :=
  xs.foldr (fun x n => (l.stride x).toOption.getD 0 + n) 0

theorem room_cons_of_pack (h : l.pack x = .ok bs) :
    l.room (x :: xs) = (l.block x).length + l.room xs := by
  rw [room, List.foldr_cons, stride_eq_of_pack h]
  rfl

/-- Blocks in a row take the strides of their elements. -/
theorem length_flatMap_block_eq_room (hpack : ∀ x ∈ xs, ∃ bs, l.pack x = .ok bs) :
    (xs.flatMap l.block).length = l.room xs := by
  induction xs with
  | nil => rfl
  | cons x xs ih =>
      obtain ⟨⟨bs, hp⟩, hpack⟩ := List.forall_mem_cons.mp hpack
      rw [List.flatMap_cons, List.length_append, ih hpack, room_cons_of_pack hp]

/-- Elements take whole boundaries. -/
theorem dvd_room (hpack : ∀ x ∈ xs, ∃ bs, l.pack x = .ok bs) : l.align.width ∣ l.room xs := by
  induction xs with
  | nil => exact Nat.dvd_zero _
  | cons x xs ih =>
      obtain ⟨⟨bs, hp⟩, hpack⟩ := List.forall_mem_cons.mp hpack
      rw [room_cons_of_pack hp, length_block_of_pack hp]
      exact Nat.dvd_add (l.align.dvd_pad _) (ih hpack)

end Layout

/-- Around an element whose flag is not set, the present elements are those before
it, itself, and those after it. -/
theorem presentElements_split {elems : List Scalar} {flags : List Bool} {i : Nat}
    (hx : elems[i]? = some x) (hnull : flags[i]? = some false) :
    presentElements elems flags = presentElements (elems.take i) flags ++
      x :: presentElements (elems.drop (i + 1)) (flags.drop (i + 1)) := by
  induction i generalizing elems flags with
  | zero =>
      obtain ⟨elems, rfl⟩ : ∃ ys, elems = x :: ys := by
        cases elems <;> simp_all
      obtain ⟨flags, rfl⟩ : ∃ ys, flags = false :: ys := by
        cases flags <;> simp_all
      rfl
  | succ i ih =>
      cases elems with
      | nil => contradiction
      | cons y elems =>
          cases flags with
          | nil => contradiction
          | cons flag flags =>
              have hrest := @ih elems flags hx hnull
              cases flag with
              | true => exact hrest
              | false => exact congrArg (y :: ·) hrest

variable {elems : List Scalar} {flags : List Bool} {i : Nat}

theorem pack_of_mem_before (hpack : ∀ x ∈ presentElements elems flags, ∃ bs, l.pack x = .ok bs)
    (hx : elems[i]? = some x) (hnull : flags[i]? = some false) :
    ∀ y ∈ presentElements (elems.take i) flags, ∃ bs, l.pack y = .ok bs := by
  rw [presentElements_split hx hnull] at hpack
  exact fun y hy => hpack y (List.mem_append_left _ hy)

/-- Among the blocks of the present elements, that of an element comes behind the
room of those before it. -/
theorem flatMap_block_split (hpack : ∀ x ∈ presentElements elems flags, ∃ bs, l.pack x = .ok bs)
    (hx : elems[i]? = some x) (hnull : flags[i]? = some false) :
    ∃ before after, (presentElements elems flags).flatMap l.block =
        before ++ (l.block x ++ after) ∧
      before.length = l.room (presentElements (elems.take i) flags) := by
  refine ⟨_, (presentElements (elems.drop (i + 1)) (flags.drop (i + 1))).flatMap l.block, ?_,
    Layout.length_flatMap_block_eq_room (pack_of_mem_before hpack hx hnull)⟩
  rw [presentElements_split hx hnull, List.flatMap_append, List.flatMap_cons]

namespace NdArray

/-! ## the layout -/

/-- Where the data starts: behind the words and, if an item is null, behind the
bitmap, on the next boundary of eight bytes. -/
def startFor (ndim : Nat) (flags : List Bool) : Nat :=
  if true ∈ flags then (16 + 8 * ndim + (flags.length + 7) / 8 + 7) / 8 * 8 else 16 + 8 * ndim

/-- The bytes lay out these elements under these null flags in this shape. -/
structure LaidOut (l : Layout) (elems : List Scalar) (flags : List Bool)
    (dims lbounds : List Int32) (tag : Tag) (out : List UInt8) : Prop where
  /-- The length word can hold four times the length. -/
  length_le : out.length ≤ 0x3fffffff
  length : out.length = startFor dims.length flags + l.room (presentElements elems flags)
  words : WordsAt out 0
    (UInt32.ofNat (4 * out.length) :: UInt32.ofNat dims.length ::
      UInt32.ofNat (if true ∈ flags then startFor dims.length flags else 0) :: tag.code ::
      (dims.map Int32.toUInt32 ++ lbounds.map Int32.toUInt32))
  /-- Between words and data a bit is set exactly when it is that of a present
  item. -/
  bitmap : ∀ i, 8 * (16 + 8 * dims.length) + i < 8 * startFor dims.length flags →
    bitAt out (8 * (16 + 8 * dims.length) + i) = (flags[i]? == some false)
  /-- A present item lies behind the room of the present items before it, on a
  boundary, with zeros up to its stride. -/
  item : ∀ i x, elems[i]? = some x → flags[i]? = some false →
    let start := startFor dims.length flags + l.room (presentElements (elems.take i) flags)
    ∃ bs stride, l.Spells x bs ∧ l.stride x = .ok stride ∧ l.align.width ∣ start ∧
      bs.length ≤ stride ∧ start + stride ≤ out.length ∧
      (out.drop start).take stride = bs ++ List.replicate (stride - bs.length) 0

theorem any_id_eq (flags : List Bool) : flags.any id = decide (true ∈ flags) := by
  induction flags with
  | nil => rfl
  | cons flag flags ih => cases flag <;> simp_all

section FlatForm

variable {tag : Tag} {dims lbounds : List Int32} {data : List UInt8}

/-- The header of an assembled array reaches to where the data is to start. -/
theorem headerSize_assemble (hcheck : checkDimensions dims lbounds = .ok ())
    (hcount : itemCount dims = .ok flags.length) :
    (assemble tag dims lbounds flags data).headerSize = startFor dims.length flags := by
  unfold headerSize
  rw [size_assemble hcheck hcount, nullableHeaderSize_eq, plainHeaderSize_eq]
  unfold assemble startFor
  rw [any_id_eq]
  by_cases hnull : true ∈ flags
  · simp [hnull]
  · simp [hnull, fixedHeaderSize]

theorem dataOffset_assemble (tag : Tag) (dims lbounds : List Int32) (flags : List Bool)
    (data : List UInt8) :
    (assemble tag dims lbounds flags data).dataOffset.toUInt32 =
      UInt32.ofNat (if true ∈ flags then startFor dims.length flags else 0) := by
  unfold assemble startFor
  rw [any_id_eq]
  by_cases hnull : true ∈ flags
  · simp only [hnull, decide_true, if_true, nullableHeaderSize_eq]
    rfl
  · simp only [hnull, decide_false, Bool.false_eq_true, if_false]
    rfl

/-- Data starts on the strictest boundary. -/
theorem dvd_startFor (a : Align) (ndim : Nat) (flags : List Bool) :
    a.width ∣ startFor ndim flags := by
  have height : 8 ∣ startFor ndim flags := by
    unfold startFor
    split <;> omega
  refine Nat.dvd_trans ?_ height
  cases a <;> decide

theorem wordsAt_flatForm (hcheck : checkDimensions dims lbounds = .ok ())
    (hcount : itemCount dims = .ok flags.length)
    (hwf : (assemble tag dims lbounds flags data).WellFormed)
    (hle : startFor dims.length flags + data.length ≤ 0x3fffffff) :
    WordsAt (assemble tag dims lbounds flags data).flatForm 0
      (UInt32.ofNat (4 * (startFor dims.length flags + data.length)) :: UInt32.ofNat dims.length ::
        UInt32.ofNat (if true ∈ flags then startFor dims.length flags else 0) :: tag.code ::
        (dims.map Int32.toUInt32 ++ lbounds.map Int32.toUInt32)) := by
  have hheader : (assemble tag dims lbounds flags data).headerSize = startFor dims.length flags :=
    headerSize_assemble hcheck hcount
  have htotal := hwf.wordAt_flatForm (hheader ▸ hle)
  have hwords := (hwf.isFlatForm_flatForm (hheader ▸ hle)).words
  rw [hheader] at htotal
  refine ⟨?_, ?_⟩
  · rw [← UInt32.toNat_inj, htotal, UInt32.toNat_ofNat_of_lt' (by simp [UInt32.size]; omega)]
    rfl
  · rw [FlatHeader.words, hwf.ndim_header] at hwords
    rw [← dataOffset_assemble tag dims lbounds flags data]
    exact hwords

theorem bitAt_flatForm_bitmap (hcheck : checkDimensions dims lbounds = .ok ())
    (hcount : itemCount dims = .ok flags.length)
    (hwf : (assemble tag dims lbounds flags data).WellFormed)
    (hle : startFor dims.length flags + data.length ≤ 0x3fffffff)
    (hi : 8 * (16 + 8 * dims.length) + i < 8 * startFor dims.length flags) :
    bitAt (assemble tag dims lbounds flags data).flatForm (8 * (16 + 8 * dims.length) + i) =
      (flags[i]? == some false) := by
  have hheader : (assemble tag dims lbounds flags data).headerSize = startFor dims.length flags :=
    headerSize_assemble hcheck hcount
  have hform := hwf.isFlatForm_flatForm (hheader ▸ hle)
  have hsize : (assemble tag dims lbounds flags data).size = flags.length :=
    size_assemble hcheck hcount
  cases hn : (assemble tag dims lbounds flags data).nulls with
  | none =>
      rw [← hheader, headerSize, hn, Option.isSome_none, if_neg Bool.false_ne_true,
        plainHeaderSize_eq] at hi
      exact absurd hi (Nat.not_lt.mpr (Nat.le_add_right _ _))
  | some b =>
      rw [← hheader] at hi
      rw [← bitAt_drop]
      refine (hform.bitAt_drop_words hwf hn hi).trans ?_
      rw [hsize]
      by_cases hitem : i < flags.length
      · have hnull : (assemble tag dims lbounds flags data).isNullAt i = flags[i] :=
          isNullAt_assemble hitem
        simp only [isNullAt, hn, NullBitmap.isNull] at hnull
        rw [hform.bitmap b hn i (hsize ▸ hitem), List.getElem?_eq_getElem hitem, ← hnull]
        simp [hitem]
      · simp [hitem]

end FlatForm

variable {tag : Tag} {dims lbounds : List Int32} {nulls : Option (List Bool)} {a : NdArray}
  {out : List UInt8}

theorem item_flatForm (hpack : ∀ x ∈ presentElements elems flags, ∃ bs, l.pack x = .ok bs)
    (hlength : out.length = startFor dims.length flags +
      ((presentElements elems flags).flatMap l.block).length)
    (hdata : out.drop (startFor dims.length flags) =
      (presentElements elems flags).flatMap l.block)
    (hx : elems[i]? = some x) (hnull : flags[i]? = some false) :
    let start := startFor dims.length flags + l.room (presentElements (elems.take i) flags)
    ∃ bs stride, l.Spells x bs ∧ l.stride x = .ok stride ∧ l.align.width ∣ start ∧
      bs.length ≤ stride ∧ start + stride ≤ out.length ∧
      (out.drop start).take stride = bs ++ List.replicate (stride - bs.length) 0 := by
  intro start
  obtain ⟨bs, hp⟩ := hpack x (mem_presentElements hx hnull)
  obtain ⟨before, after, hsplit, hbefore⟩ := flatMap_block_split hpack hx hnull
  have hstride := Layout.length_block_of_pack hp
  refine ⟨bs, _, Layout.spells_of_pack hp, Layout.stride_eq_of_pack hp, ?_, ?_, ?_, ?_⟩
  · exact Nat.dvd_add (dvd_startFor _ _ _)
      (Layout.dvd_room (pack_of_mem_before hpack hx hnull))
  · rw [hstride]
    exact l.align.le_pad _
  · rw [hsplit, List.length_append, List.length_append, hbefore] at hlength
    omega
  · rw [← List.drop_drop, hdata, hsplit, ← hbefore, List.drop_left, List.take_left, hstride,
      ← Layout.block_eq_of_pack hp]

/-- **The layout of the flat form**: whatever array of elements is encoded, with
whatever layout its tag is used, every word, every bit and every present element
lies where shape, null flags and the elements before it put it, with zeros
between. -/
theorem laidOut_of_encode (h : ofElements elems nulls dims lbounds tag l = .ok a)
    (hdims : dims ≠ []) (hout : a.encode = .ok out) :
    ∃ n flags, itemCount dims = .ok n ∧ n ≤ elems.length ∧ flags.length = n ∧
      flags = (nulls.getD (List.replicate n false)).take n ∧
      LaidOut l (elems.take n) flags dims lbounds tag out := by
  obtain ⟨hnil, -⟩ | ⟨-, hcheck, n, flags, size, hn, hle, hflags, -, hsize, ha⟩ :=
    ofElements_eq_ok_iff.mp h
  · exact absurd hnil hdims
  obtain ⟨rfl, hmask⟩ := nullFlags_eq_ok_iff.mp hflags
  obtain ⟨hpack, -, -⟩ := Layout.pack_of_measureFrom hsize (Nat.zero_le _)
  have hmade : Obtained (fun _ _ => True) a := .ofElements trivial h
  have hwf := hmade.wellFormed
  have hheader : a.headerSize = startFor dims.length flags := by
    rw [ha, headerSize_assemble hcheck hn]
  subst ha
  obtain ⟨hmax, rfl⟩ := hwf.encode_eq_ok_iff.mp hout
  have hlength := hwf.length_flatForm
  have hdrop := hwf.drop_headerSize_flatForm
  rw [hheader] at hmax hlength hdrop
  refine ⟨_, flags, hn, hle, rfl, hmask, ?_⟩
  constructor
  case length_le => rwa [hlength]
  case length =>
    rw [hlength, ← Layout.length_flatMap_block_eq_room hpack]
    rfl
  case words =>
    rw [hlength]
    exact wordsAt_flatForm hcheck hn hwf hmax
  case bitmap => exact fun i => bitAt_flatForm_bitmap hcheck hn hwf hmax
  case item => exact fun i x => item_flatForm hpack hlength hdrop

/-- Two texts around a null: the third item lies behind the block of the first. -/
theorem laidOut_of_encode_text :
    let elems := [.ref [97, 98], .word 5, .ref [99]]
    let nulls := some [false, true, false]
    let l : Layout := ⟨-1, false, .int⟩
    let a := assemble Tag.text [3] [-1] [false, true, false]
      [24, 0, 0, 0, 97, 98, 0, 0, 20, 0, 0, 0, 99, 0, 0, 0]
    let out := [192, 0, 0, 0, 1, 0, 0, 0, 32, 0, 0, 0, 25, 0, 0, 0, 3, 0, 0, 0, 255, 255, 255, 255,
      5, 0, 0, 0, 0, 0, 0, 0, 24, 0, 0, 0, 97, 98, 0, 0, 20, 0, 0, 0, 99, 0, 0, 0]
    ofElements elems nulls [3] [-1] Tag.text l = .ok a ∧ a.encode = .ok out ∧
      ∃ n flags, itemCount [3] = .ok n ∧ n ≤ elems.length ∧ flags.length = n ∧
        flags = (nulls.getD (List.replicate n false)).take n ∧
        LaidOut l (elems.take n) flags [3] [-1] Tag.text out := by
  intro elems nulls l a out
  have hmade : ofElements elems nulls [3] [-1] Tag.text l = .ok a := by
    simp only [elems, nulls, l, a]
    rfl
  have hout : a.encode = .ok out := by
    simp only [a, out]
    rfl
  exact ⟨hmade, hout, laidOut_of_encode hmade (List.cons_ne_nil _ _) hout⟩

end NdArray

end PackedArray
