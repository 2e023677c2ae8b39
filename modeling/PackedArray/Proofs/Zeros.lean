import PackedArray.Proofs.ElementWise
import PackedArray.Proofs.Sources

/-!
# PackedArray.Proofs.Zeros

Zeros without packing any.

An array of zeros is a region of zero bytes, sized by the width of its kind.  An array
of elements is measured and packed one by one.  For a numeric kind the two ways meet in
`NdArray.zeroFilled`: the widths agree, a zero packs to zero bytes, and no count of items
asks for more than the ceiling, so a shape is all that either can refuse.

* `Kind.IsZero` — the scalars that are packed as a zero;
* `NdArray.zeros_eq_zeroFilled`, `NdArray.ofElements_eq_zeroFilled` — the two ways;
* `NdArray.zeros_eq_ofSource` — filling with zeros is packing them.
-/

namespace PackedArray

/-! ## zeros of a kind -/

namespace Kind

variable {k : Kind} {x : Scalar}

/-- A scalar stands for a zero of this kind: the bytes that the kind reads are all
zero. -/
def IsZero (k : Kind) (x : Scalar) : Prop :=
  x.lead k.layout.len.toNat = List.replicate k.layout.len.toNat 0

instance (k : Kind) (x : Scalar) : Decidable (k.IsZero x) :=
  inferInstanceAs (Decidable (_ = _))

/-- The zero of a kind, as it is read back. -/
def zero (k : Kind) : Scalar := k.layout.ofImage (List.replicate k.layout.len.toNat 0)

theorem isZero_zero (k : Kind) : k.IsZero k.zero := by
  match k with
  | .int .two | .int .four | .int .eight | .float4 | .float8 => decide

theorem IsZero.leNat_eq (h : k.IsZero x) : leNat (x.lead k.layout.len.toNat) = 0 := by
  rw [h]
  match k with
  | .int .two | .int .four | .int .eight | .float4 | .float8 => rfl

theorem IsZero.asInt_eq {w : IntWidth} (h : (Kind.int w).IsZero x) : x.asInt w = 0 := by
  have hbytes : (Kind.int w).layout.len.toNat = w.bytes := by cases w <;> rfl
  rw [Scalar.asInt, ← hbytes, h.leNat_eq]
  exact Int.zero_bmod

/-- A zero is the number zero. -/
theorem IsZero.toDouble_eq (h : k.IsZero x) : x.toDouble k = Double.zero := by
  cases k with
  | int w =>
      rw [Scalar.toDouble, h.asInt_eq]
      rfl
  | float4 =>
      have hnat : leNat (x.lead 4) = 0 := h.leNat_eq
      rw [Scalar.toDouble, Scalar.asSingle, hnat]
      rfl
  | float8 =>
      have hnat : leNat (x.lead 8) = 0 := h.leNat_eq
      rw [Scalar.toDouble, Scalar.asDouble, hnat]
      rfl

theorem IsZero.canonical_eq (h : k.IsZero x) : k.layout.canonical x = k.zero := by
  rw [Layout.canonical, if_neg (by simp), h]
  rfl

/-- A zero is packed to zero bytes. -/
theorem IsZero.block_eq (h : k.IsZero x) : k.layout.block x = List.replicate k.itemSize 0 := by
  rw [Layout.block_eq_of_pack (k.pack_eq_ok x), h, List.length_replicate,
    List.replicate_append_replicate, Nat.add_sub_cancel' (k.layout.align.le_pad _)]
  rfl

theorem flatMap_block_eq {xs : List Scalar} (h : ∀ x ∈ xs, k.IsZero x) :
    xs.flatMap k.layout.block = List.replicate (xs.length * k.itemSize) 0 := by
  induction xs with
  | nil => simp
  | cons x xs ih =>
      obtain ⟨hx, hxs⟩ := List.forall_mem_cons.mp h
      rw [List.flatMap_cons, hx.block_eq, ih hxs, List.replicate_append_replicate,
        List.length_cons, Nat.succ_mul, Nat.add_comm]

end Kind

namespace NdArray

variable {k : Kind} {dims lbounds : List Int32} {elems : List Scalar}
  {nulls : Option (List Bool)} {n : Nat} {e : ArrayError}

/-! ## the two ways -/

/-- The array of zeros of a numeric kind, for every shape that can be counted. -/
def zeroFilled (k : Kind) (dims lbounds : List Int32) : Except ArrayError NdArray := do
  checkDimensions dims lbounds
  if dims.isEmpty then return empty k.tag
  let n ← itemCount dims
  return assemble k.tag dims lbounds (List.replicate n false) (List.replicate (n * k.itemSize) 0)

/-- A count of items asks for no more zeros than the ceiling. -/
theorem mul_toNat_max_len_le (k : Kind) (h : itemCount dims = .ok n) :
    (max k.layout.len 2).toNat * n ≤ maxDataSize := by
  rw [k.toNat_max_len, Nat.mul_comm]
  exact k.mul_itemSize_le (itemCount_le h)

theorem zeros_eq_zeroFilled (k : Kind) (dims lbounds : List Int32) :
    zeros dims lbounds k.tag k.layout = zeroFilled k dims lbounds := by
  rw [zeros, zeroFilled]
  refine bind_congr fun _ => ?_
  split
  · rfl
  cases hn : itemCount dims with
  | error e => rfl
  | ok n =>
      have hle := mul_toNat_max_len_le k hn
      have hnumeric : k.tag.isNumeric = true := by simp [Tag.isNumeric]
      simp only [ok_bind, hnumeric, admits_iff.mpr hle, allocData_eq_ok hle, Bool.not_true,
        Bool.false_eq_true, if_false, Region.bytes_zeros, assemble_replicate]
      rw [k.toNat_max_len, Nat.mul_comm]

/-- Elements that are zeros, none of them null, are packed to the array of zeros. -/
theorem ofElements_eq_zeroFilled (hzero : ∀ x ∈ elems, k.IsZero x)
    (hcover : ∀ n, itemCount dims = .ok n →
      n ≤ elems.length ∧ nullFlags n nulls = .ok (List.replicate n false)) :
    ofElements elems nulls dims lbounds k.tag k.layout = zeroFilled k dims lbounds := by
  cases hcheck : checkDimensions dims lbounds with
  | error e =>
      rw [ofElements, zeroFilled, hcheck]
      rfl
  | ok _ =>
      by_cases hdims : dims = []
      · subst hdims
        rw [ofElements, zeroFilled, hcheck]
        rfl
      · cases hn : itemCount dims with
        | error e =>
            rw [ofElements, zeroFilled, hcheck, hn]
            rfl
        | ok n =>
            obtain ⟨hle, hflags⟩ := hcover n hn
            have hlen : (elems.take n).length = n := List.length_take_of_le hle
            have hpresent := presentElements_replicate (elems.take n)
            rw [hlen] at hpresent
            rw [ofElements_eq_assemble k k.tag hdims hcheck hn hle hflags, hpresent,
              Kind.flatMap_block_eq fun x hx => hzero x (List.mem_of_mem_take hx), hlen,
              zeroFilled, hcheck, hn, ok_bind, if_neg (by simpa using hdims)]
            rfl

/-! ## what comes of them -/

/-- A shape is refused for its dimensions or for its count, and for nothing else. -/
theorem zeroFilled_eq_error_iff :
    zeroFilled k dims lbounds = .error e ↔
      checkDimensions dims lbounds = .error e ∨
        checkDimensions dims lbounds = .ok () ∧ itemCount dims = .error e := by
  have hnil : itemCount [] = .ok 0 := rfl
  unfold zeroFilled
  cases checkDimensions dims lbounds with
  | error e' => simp [bind, Except.bind]
  | ok _ =>
      cases dims with
      | nil => simp [hnil, bind, Except.bind, pure, Except.pure]
      | cons d ds => cases itemCount (d :: ds) <;> simp [bind, Except.bind, pure, Except.pure]

/-- Only a shape that can be counted is filled. -/
theorem exists_itemCount_of_zeroFilled {a : NdArray} (h : zeroFilled k dims lbounds = .ok a) :
    ∃ n, itemCount dims = .ok n := by
  obtain ⟨rfl, -, -⟩ | ⟨-, -, hrest⟩ := shaped_eq_ok_iff.mp h
  · exact ⟨0, rfl⟩
  · obtain ⟨n, hn, -⟩ := bind_eq_ok_iff.mp hrest
    exact ⟨n, hn⟩

theorem itemsOf_replicate_zero (k : Kind) (n : Nat) :
    k.layout.itemsOf (List.replicate n k.zero) (List.replicate n false) =
      List.replicate n (some k.zero) := by
  simp [Layout.itemsOf, k.isZero_zero.canonical_eq]

/-- The array of zeros holds a zero for each item. -/
theorem holds_of_zeroFilled {a : NdArray} (h : zeroFilled k dims lbounds = .ok a) :
    itemCount dims = .ok a.size ∧ a.tag = k.tag ∧
      a.Holds k.layout (List.replicate a.size (some k.zero)) := by
  obtain ⟨n, hn⟩ := exists_itemCount_of_zeroFilled h
  have hmade : ofElements (List.replicate n k.zero) none dims lbounds k.tag k.layout = .ok a := by
    rw [← h]
    refine ofElements_eq_zeroFilled (fun x hx => ?_) fun m hm => ?_
    · rw [List.eq_of_mem_replicate hx]
      exact k.isZero_zero
    · obtain rfl : n = m := Except.ok.inj (hn.symm.trans hm)
      exact ⟨Nat.le_of_eq List.length_replicate.symm, rfl⟩
  obtain ⟨m, flags, hm, -, hflags, -, htag, hsize, hholds⟩ := holds_of_ofElements hmade
  obtain rfl : n = m := Except.ok.inj (hn.symm.trans hm)
  obtain rfl : List.replicate n false = flags := Except.ok.inj hflags
  rw [List.take_of_length_le (Nat.le_of_eq List.length_replicate),
    itemsOf_replicate_zero] at hholds
  rw [hsize]
  exact ⟨hn, htag, hholds⟩

end NdArray

/-- A source with its mask has an element for each of `n` items, and none of them is
null. -/
structure Source.AllPresent (source : Source) (mask : Option (List Bool)) (n : Nat) : Prop where
  length : n ≤ source.length
  covers : NdArray.Covers n mask
  present : ∀ i < n, masked mask i = false

theorem Source.AllPresent.nullFlags_eq {source : Source} {mask : Option (List Bool)} {n : Nat}
    (h : source.AllPresent mask n) :
    NdArray.nullFlags n mask = .ok (List.replicate n false) := by
  rw [NdArray.nullFlags_eq_maskFrom h.covers, ← NdArray.maskFrom_none]
  refine congrArg _ (List.map_congr_left fun i hi => ?_)
  rw [h.present i (by simpa using hi)]
  rfl

namespace NdArray

/-- **Filling with zeros is packing zeros**: for a numeric kind, whatever the dimensions,
an array of zeros is the array that is made of enough elements that are zeros, or is
refused as that is.  It reads as zeros, one for each item.  Dimensions that can be counted
are never refused for their size, since neither way asks for more bytes than the
ceiling. -/
theorem zeros_eq_ofSource (k : Kind) (source : Source) (nulls : Option (List Bool))
    (dims lbounds : List Int32) (hzero : ∀ x ∈ source.elems, k.IsZero x)
    (hall : ∀ n, itemCount dims = .ok n → source.AllPresent nulls n) :
    zeros dims lbounds k.tag k.layout = ofSource source nulls dims lbounds k.tag k.layout ∧
    (∀ a, zeros dims lbounds k.tag k.layout = .ok a → itemCount dims = .ok a.size ∧
      a.toElements k.tag k.layout =
        .ok ⟨List.replicate a.size k.zero, List.replicate a.size false⟩) ∧
    k.zero.toDouble k = Double.zero ∧
    (∀ e, zeros dims lbounds k.tag k.layout = .error e ↔
      checkDimensions dims lbounds = .error e ∨
        checkDimensions dims lbounds = .ok () ∧ itemCount dims = .error e) ∧
    (∀ n, itemCount dims = .ok n →
      Quota.standard.admits ((max k.layout.len 2).toNat * n) = true ∧
        k.layout.checkNominal n = .ok ()) := by
  have hzeros := zeros_eq_zeroFilled k dims lbounds
  refine ⟨?_, fun a ha => ?_, k.isZero_zero.toDouble_eq, fun e => ?_, fun n hn => ?_⟩
  · rw [hzeros, ofSource_eq_ofElements]
    exact (ofElements_eq_zeroFilled hzero fun n hn =>
      ⟨(hall n hn).length, (hall n hn).nullFlags_eq⟩).symm
  · obtain ⟨hn, htag, hholds⟩ := holds_of_zeroFilled (hzeros ▸ ha)
    have hread := toElements_of_holds hholds
    rw [htag] at hread
    refine ⟨hn, hread.trans ?_⟩
    simp [Elements.ofItems]
  · rw [hzeros]
    exact zeroFilled_eq_error_iff
  · exact ⟨admits_iff.mpr (mul_toNat_max_len_le k hn), k.checkNominal_eq_ok (itemCount_le hn)⟩

/-- Two rows of two floats, of words and of blocks longer and shorter than a float, with one
element more than the dimensions ask for. -/
theorem zeros_eq_ofSource_longer :
    let k := Kind.float4
    let source := Source.consume
      [.word 0, .ref [], .ref [0, 0, 0, 0], .ref [0, 0, 0, 0, 7], .word 0]
    let nulls := some [false, false, false, false]
    let a := assemble k.tag [2, 2] [1, 1] [false, false, false, false] (List.replicate 16 0)
    (∀ x ∈ source.elems, k.IsZero x) ∧
      (∀ n, itemCount [2, 2] = .ok n → source.AllPresent nulls n) ∧
      zeros [2, 2] [1, 1] k.tag k.layout = .ok a ∧
      zeros [2, 2] [1, 1] k.tag k.layout = ofSource source nulls [2, 2] [1, 1] k.tag k.layout := by
  intro k source nulls a
  have hzero : ∀ x ∈ source.elems, k.IsZero x := by decide
  have hall (n : Nat) (hn : itemCount [2, 2] = .ok n) : source.AllPresent nulls n := by
    obtain rfl : 4 = n := Except.ok.inj hn
    refine ⟨by decide, fun flags hflags => ?_, by decide⟩
    exact Option.some.inj hflags ▸ by decide
  have hmade : zeros [2, 2] [1, 1] k.tag k.layout = .ok a := by
    simp only [k, a]
    rfl
  exact ⟨hzero, hall, hmade, (zeros_eq_ofSource k source nulls [2, 2] [1, 1] hzero hall).1⟩

/-- The one extent that is asked for is the count, where it has one. -/
theorem itemCount_vectorExtent {d : Int32} {m : Nat} (hd : vectorExtent n = .ok d)
    (hm : itemCount [d] = .ok m) : m = n := by
  unfold vectorExtent at hd
  split at hd
  · next hle =>
      obtain rfl := Except.ok.inj hd
      obtain ⟨hnil, -⟩ | ⟨-, -, -, rfl, -⟩ := itemCount_eq_ok_iff_isItemCount.mp hm
      · contradiction
      · have hint : (Int32.ofNat n).toInt = n :=
          Int32.toInt_ofNat_of_lt (Nat.lt_succ_of_le hle)
        rw [extentProduct, List.foldr_cons, hint, Int.toNat_natCast, List.foldr_nil, Nat.mul_one]
  · contradiction

/-- A vector filled with zeros is the vector of zeros that are packed. -/
theorem zeroVector_eq_vectorOfElements {k : Kind} (hzero : ∀ x ∈ elems, k.IsZero x)
    (hle : n ≤ elems.length) :
    zeroVector n k.tag k.layout = vectorOfElements elems n k.tag k.layout := by
  unfold zeroVector vectorOfElements
  cases hd : vectorExtent n with
  | error e => rfl
  | ok d =>
      rw [ok_bind, ok_bind, zeros_eq_zeroFilled, ofElements_eq_zeroFilled hzero fun m hm => ?_]
      rw [itemCount_vectorExtent hd hm]
      exact ⟨hle, rfl⟩

end NdArray

end PackedArray
