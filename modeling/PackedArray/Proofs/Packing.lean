import PackedArray.Layout.Packing

/-!
# PackedArray.Proofs.Packing

One element through its packed bytes and back.

Packing and unpacking branch differently: packing looks at the storage form of
the scalar, unpacking only at the layout.  They meet in the *canonical* form
of an element — what any scalar becomes once it has been stored under a
layout — and in its *block*, the packed bytes with their padding.

* `Layout.canonical_word_of_byValue`, `Layout.canonical_ref_of_byRef` and those between
  them — the canonical form in figures;
* `Layout.pack_eq_ok_iff` — a fixed-width layout packs exactly its width;
* `Layout.Reads`, `Layout.exists_reads_of_unpack` — the bytes that an element is read
  off, and what is read is read off such;
* `Layout.unpack_append` — unpacking the packed bytes of an element gives its
  canonical form, whatever follows;
* `Layout.exists_pack_of_stride` — an element that has been measured can be
  packed, and its stride is the length of its block;
* `Region.store_eq` — on an aligned cursor a stored element writes its block.
-/

namespace PackedArray

/-! ## canonical form -/

/-- A word of no more than eight bytes leads with them. -/
theorem Scalar.lead_word_leNat {bs : List UInt8} (h : bs.length ≤ 8) :
    (word (UInt64.ofNat (leNat bs))).lead bs.length = bs := by
  have hlt : leNat bs < 2 ^ 64 := by
    have hbs := leNat_lt bs
    rw [Nat.one_shiftLeft] at hbs
    exact Nat.lt_of_lt_of_le hbs (Nat.pow_le_pow_right (by decide) (by omega))
  have hnat : (UInt64.ofNat (leNat bs)).toNat = leNat bs := UInt64.toNat_ofNat_of_lt' hlt
  rw [lead_word h, hnat, leBytes_leNat]

namespace Layout

/-- The element that a fixed-width image stands for: a word of its bytes, or
the bytes as a block. -/
def ofImage (l : Layout) (image : List UInt8) : Scalar :=
  if l.byValue then .word (UInt64.ofNat (leNat image)) else .ref image

/-- What an image stands for leads with it. -/
theorem lead_ofImage {l : Layout} {image : List UInt8} (h : image.length ≤ 8) :
    (l.ofImage image).lead image.length = image := by
  unfold ofImage
  split
  · exact Scalar.lead_word_leNat h
  · exact fit_eq_self rfl

/-- What an element becomes once it is stored: the payload of a
variable-length element, else the first bytes of the scalar at the width of
the layout, zero-padded. -/
def canonical (l : Layout) (x : Scalar) : Scalar :=
  if l.isVariable then .ref x.image else l.ofImage (x.lead l.len.toNat)

section Canonical

variable {l : Layout}

/-- The payload of a variable-length element is not changed. -/
theorem canonical_ref_of_isVariable (hv : l.isVariable = true) (bs : List UInt8) :
    l.canonical (.ref bs) = .ref bs := by
  rw [canonical, if_pos hv]
  rfl

/-- By value, a word is stored modulo the width of the layout. -/
theorem canonical_word_of_byValue (hv : l.isVariable = false) (hl : l.byValue = true)
    (w : UInt64) :
    l.canonical (.word w) = .word (UInt64.ofNat (w.toNat % 1 <<< (8 * l.len.toNat))) := by
  rw [canonical, if_neg (by simp [hv]), ofImage, if_pos hl, Scalar.leNat_lead_word]

/-- By value, a block is stored as the word of its bytes, modulo the width. -/
theorem canonical_ref_of_byValue (hv : l.isVariable = false) (hl : l.byValue = true)
    (bs : List UInt8) :
    l.canonical (.ref bs) = .word (UInt64.ofNat (leNat bs % 1 <<< (8 * l.len.toNat))) := by
  rw [canonical, if_neg (by simp [hv]), ofImage, if_pos hl, Scalar.leNat_lead_ref]

/-- By reference, a word is stored as the block of its low bytes. -/
theorem canonical_word_of_byRef (hv : l.isVariable = false) (hl : l.byValue = false)
    (hlen : l.len.toNat ≤ 8) (w : UInt64) :
    l.canonical (.word w) = .ref (leBytes l.len.toNat w.toNat) := by
  rw [canonical, if_neg (by simp [hv]), ofImage, if_neg (by simp [hl]), Scalar.lead_word hlen]

/-- By reference, a block is cut to the width of the layout, or padded with zeros. -/
theorem canonical_ref_of_byRef (hv : l.isVariable = false) (hl : l.byValue = false)
    (bs : List UInt8) :
    l.canonical (.ref bs) =
      .ref (bs.take l.len.toNat ++ List.replicate (l.len.toNat - bs.length) 0) := by
  rw [canonical, if_neg (by simp [hv]), ofImage, if_neg (by simp [hl])]
  rfl

end Canonical

example : canonical ⟨2, true, .short⟩ (.word 0x12345) = .word 0x2345 := by decide

example : canonical ⟨3, false, .char⟩ (.ref [7]) = .ref [7, 0, 0] := by decide

/-- The packed bytes of an element and its padding; nothing for an element
that cannot be packed. -/
def block (l : Layout) (x : Scalar) : List UInt8 :=
  match l.pack x with
  | .ok bs => fit (l.align.pad bs.length) bs
  | .error _ => []

/-! ## packing -/

/-- A variable-length element packs to its length word and its payload. -/
theorem pack_eq_ok_iff_of_isVariable {l : Layout} (hv : l.isVariable = true) {x : Scalar}
    {bs : List UInt8} :
    l.pack x = .ok bs ↔ ∃ payload, x = .ref payload ∧
      payload.length + variableHeaderSize ≤ maxVariableSize ∧
      bs = leBytes 4 (4 * (payload.length + variableHeaderSize)) ++ payload := by
  unfold pack
  rw [if_pos hv]
  cases x with
  | word w => simp
  | ref payload =>
      unfold packVariable
      by_cases hle : payload.length + variableHeaderSize ≤ maxVariableSize
      · simp only [hle, if_true]
        constructor
        · intro h
          exact ⟨payload, rfl, hle, (Except.ok.inj h).symm⟩
        · rintro ⟨_, hp, _, rfl⟩
          cases hp
          rfl
      · simp only [hle, if_false]
        constructor
        · intro h
          contradiction
        · rintro ⟨_, hp, hle', _⟩
          cases hp
          exact absurd hle' hle

/-- A fixed-width element packs to its first bytes.  A block in a
by-reference layout takes any positive width; the other combinations need the
width of a word. -/
theorem pack_eq_ok_iff {l : Layout} (hv : l.isVariable = false) {x : Scalar} {bs : List UInt8} :
    l.pack x = .ok bs ↔ 0 < l.len ∧
      (x.isRef = true ∧ l.byValue = false ∨ l.len.toNat ∈ Scalar.wordWidths) ∧
      bs = x.lead l.len.toNat := by
  unfold pack Scalar.fixedBytes
  rw [if_neg (by simp [hv])]
  by_cases hlen : l.len ≤ 0
  · simp [hlen, Int.not_lt.mpr hlen]
  · have hpos : 0 < l.len := by omega
    rw [if_neg hlen]
    by_cases hblock : x.isRef = true ∧ l.byValue = false
    · simp [hblock, hpos, eq_comm (a := bs)]
    · have hblock' : (x.isRef && !l.byValue) = false := by
        rw [Bool.eq_false_iff]
        simpa using hblock
      by_cases hw : l.len.toNat ∈ Scalar.wordWidths
      · simp [hblock, hblock', hw, hpos, eq_comm (a := bs)]
      · simp [hblock, hblock', hw]

/-- At the width of a word every element is packed to its first bytes. -/
theorem pack_of_mem_wordWidths {l : Layout} (h : l.len.toNat ∈ Scalar.wordWidths) (x : Scalar) :
    l.isVariable = false ∧ l.pack x = .ok (x.lead l.len.toNat) := by
  have hne : l.len.toNat ≠ 0 := by
    intro hzero
    rw [hzero] at h
    exact absurd h (by decide)
  have hpos : 0 < l.len := by omega
  have hv := isVariable_eq_false hpos
  exact ⟨hv, (pack_eq_ok_iff hv).mpr ⟨hpos, .inr h, rfl⟩⟩

theorem block_eq_of_pack {l : Layout} {x : Scalar} {bs : List UInt8} (h : l.pack x = .ok bs) :
    l.block x = bs ++ List.replicate (l.align.pad bs.length - bs.length) 0 := by
  rw [block, h]
  simp only [fit]
  rw [List.take_of_length_le (l.align.le_pad _)]

theorem length_block_of_pack {l : Layout} {x : Scalar} {bs : List UInt8} (h : l.pack x = .ok bs) :
    (l.block x).length = l.align.pad bs.length := by
  rw [block, h]
  exact length_fit _ _

/-! ## unpacking -/

/-- Bytes that are read as an element.  A variable-length one has its payload behind a
word that tells, without its two low bits, how long both are together; any other is
made of the bytes of its width, which has to be that of a word for a value. -/
def Reads (l : Layout) (image : List UInt8) (x : Scalar) : Prop :=
  if l.isVariable then
    ∃ header payload, image = header ++ payload ∧ header.length = variableHeaderSize ∧
      leNat header / 4 = image.length ∧ x = .ref payload
  else
    0 < l.len ∧ (l.byValue = false ∨ l.len.toNat ∈ Scalar.wordWidths) ∧
      image.length = l.len.toNat ∧ x = l.ofImage image

theorem unpackVariable_append {header payload : List UInt8}
    (hheader : header.length = variableHeaderSize)
    (htotal : leNat header / 4 = payload.length + variableHeaderSize) (rest : List UInt8) :
    unpackVariable (header ++ payload ++ rest) =
      .ok (.ref payload, payload.length + variableHeaderSize) := by
  have hfront := front?_append header (payload ++ rest)
  have hdrop : (header ++ (payload ++ rest)).drop variableHeaderSize = payload ++ rest :=
    List.drop_left' hheader
  rw [hheader] at hfront
  rw [unpackVariable, List.append_assoc, hfront]
  simp only [hdrop, htotal]
  rw [if_neg (by omega), Nat.add_sub_cancel, front?_append]

theorem unpack_image_append {l : Layout} (hlen : 0 < l.len)
    (hwidth : l.byValue = false ∨ l.len.toNat ∈ Scalar.wordWidths) {image : List UInt8}
    (himage : image.length = l.len.toNat) (rest : List UInt8) :
    l.unpack (image ++ rest) = .ok (l.ofImage image, image.length) := by
  have hfront := front?_append image rest
  rw [himage] at hfront
  rw [unpack, unpackFixed, ofImage, if_neg (by simp [isVariable_eq_false hlen]),
    if_neg (by omega)]
  simp only [hfront, himage]
  cases hb : l.byValue with
  | false => simp
  | true =>
      have hw : l.len.toNat ∈ Scalar.wordWidths := by simpa [hb] using hwidth
      simp [hw]

section Reads

variable {l : Layout} {image bs : List UInt8} {x : Scalar} {taken : Nat}

/-- Whatever follows, the bytes of an element are all that is read of it. -/
theorem Reads.unpack_append (h : l.Reads image x) (rest : List UInt8) :
    l.unpack (image ++ rest) = .ok (x, image.length) := by
  unfold Reads at h
  split at h
  · next hv =>
      obtain ⟨header, payload, rfl, hheader, htotal, rfl⟩ := h
      have hlen : (header ++ payload).length = payload.length + variableHeaderSize := by
        rw [List.length_append, hheader, Nat.add_comm]
      rw [unpack, if_pos hv, unpackVariable_append hheader (htotal.trans hlen), hlen]
  · obtain ⟨hpos, hwidth, himage, rfl⟩ := h
    exact unpack_image_append hpos hwidth himage rest

theorem exists_append_of_unpackVariable (h : unpackVariable bs = .ok (x, taken)) :
    ∃ header payload rest, bs = header ++ payload ++ rest ∧
      header.length = variableHeaderSize ∧
      leNat header / 4 = payload.length + variableHeaderSize ∧ x = .ref payload ∧
      taken = payload.length + variableHeaderSize := by
  unfold unpackVariable at h
  cases hheader : front? variableHeaderSize bs with
  | none => simp [hheader] at h
  | some header =>
      obtain ⟨tail, rfl, hfour⟩ := exists_append_of_front? hheader
      simp only [hheader, List.drop_left' hfour] at h
      split at h
      · contradiction
      · next hge =>
          split at h
          · contradiction
          · next payload hpayload =>
              cases h
              obtain ⟨rest, rfl, hlen⟩ := exists_append_of_front? hpayload
              exact ⟨header, payload, rest, (List.append_assoc ..).symm, hfour, by omega, rfl,
                by omega⟩

theorem exists_append_of_unpackFixed (h : l.unpackFixed bs = .ok (x, taken)) :
    0 < l.len ∧ (l.byValue = false ∨ l.len.toNat ∈ Scalar.wordWidths) ∧
      ∃ image rest, bs = image ++ rest ∧ image.length = l.len.toNat ∧ x = l.ofImage image ∧
        taken = l.len.toNat := by
  unfold unpackFixed at h
  split at h
  · contradiction
  · next hlen =>
      cases himage : front? l.len.toNat bs with
      | none => simp [himage] at h
      | some image =>
          obtain ⟨rest, rfl, hwidth⟩ := exists_append_of_front? himage
          simp only [himage] at h
          refine ⟨Int.not_le.mp hlen, ?_⟩
          split at h
          · next href =>
              cases h
              rw [Bool.not_eq_true'] at href
              exact ⟨.inl href, image, rest, rfl, hwidth, by simp [ofImage, href], rfl⟩
          · next hval =>
              split at h
              · next hword =>
                  cases h
                  have hby : l.byValue = true := by simpa using hval
                  exact ⟨.inr hword, image, rest, rfl, hwidth, by simp [ofImage, hby], rfl⟩
              · contradiction

/-- What is read is read off the front. -/
theorem exists_reads_of_unpack (h : l.unpack bs = .ok (x, taken)) :
    ∃ image rest, bs = image ++ rest ∧ image.length = taken ∧ l.Reads image x := by
  unfold unpack at h
  unfold Reads
  split at h
  · next hv =>
      obtain ⟨header, payload, rest, rfl, hheader, htotal, rfl, rfl⟩ :=
        exists_append_of_unpackVariable h
      have hlen : (header ++ payload).length = payload.length + variableHeaderSize := by
        rw [List.length_append, hheader, Nat.add_comm]
      refine ⟨header ++ payload, rest, rfl, hlen, ?_⟩
      rw [if_pos hv]
      exact ⟨header, payload, rfl, hheader, htotal.trans hlen.symm, rfl⟩
  · next hv =>
      obtain ⟨hpos, hwidth, image, rest, rfl, himage, rfl, rfl⟩ := exists_append_of_unpackFixed h
      refine ⟨image, rest, rfl, himage, ?_⟩
      rw [if_neg hv]
      exact ⟨hpos, hwidth, himage, rfl⟩

/-- An element is made of some bytes. -/
theorem Reads.length_pos (h : l.Reads image x) : 0 < image.length := by
  unfold Reads at h
  split at h
  · obtain ⟨header, payload, rfl, hheader, -, -⟩ := h
    rw [List.length_append, hheader]
    exact Nat.add_pos_left (by decide) _
  · obtain ⟨hpos, -, himage, -⟩ := h
    omega

end Reads

/-! ## unpacking what was packed -/

/-- A length word stands for four times the length. -/
theorem leNat_lengthWord {total : Nat} (h : total ≤ maxVariableSize) :
    leNat (leBytes 4 (4 * total)) / 4 = total := by
  have hlt : 4 * total < 256 ^ 4 := by
    unfold maxVariableSize at h
    omega
  rw [leNat_leBytes_of_lt hlt]
  omega

/-- What is packed is read in canonical form. -/
theorem reads_of_pack {l : Layout} {x : Scalar} {bs : List UInt8} (h : l.pack x = .ok bs) :
    l.Reads bs (l.canonical x) := by
  unfold Reads canonical
  cases hv : l.isVariable with
  | true =>
      obtain ⟨payload, rfl, hle, rfl⟩ := (pack_eq_ok_iff_of_isVariable hv).mp h
      refine ⟨_, payload, rfl, length_leBytes _ _, ?_, rfl⟩
      rw [leNat_lengthWord hle, List.length_append, length_leBytes]
      exact Nat.add_comm _ _
  | false =>
      obtain ⟨hpos, hwidth, rfl⟩ := (pack_eq_ok_iff hv).mp h
      exact ⟨hpos, hwidth.imp_left And.right, Scalar.length_lead _ _, rfl⟩

/-- **Round trip of one element**: whatever follows its packed bytes, an
element is read back in canonical form and takes exactly those bytes. -/
theorem unpack_append {l : Layout} {x : Scalar} {bs : List UInt8} (h : l.pack x = .ok bs)
    (rest : List UInt8) : l.unpack (bs ++ rest) = .ok (l.canonical x, bs.length) :=
  (reads_of_pack h).unpack_append rest

/-! ## strides and blocks -/

/-- The stride of an element that can be packed is the length of its block. -/
theorem stride_eq_of_pack {l : Layout} {x : Scalar} {bs : List UInt8} (h : l.pack x = .ok bs) :
    l.stride x = .ok (l.block x).length := by
  rw [length_block_of_pack h]
  unfold stride
  cases hv : l.isVariable with
  | true =>
      obtain ⟨payload, rfl, -, rfl⟩ := (pack_eq_ok_iff_of_isVariable hv).mp h
      rw [if_pos rfl, List.length_append, length_leBytes, Nat.add_comm]
      rfl
  | false =>
      rw [if_neg Bool.false_ne_true, h]
      rfl

/-- An element that has been measured can be packed, unless its length word
cannot hold the length; and the measure is the length of its block. -/
theorem exists_pack_of_stride {l : Layout} {x : Scalar} {n : Nat} (h : l.stride x = .ok n)
    (hn : n ≤ maxVariableSize) :
    ∃ bs, l.pack x = .ok bs ∧ n = l.align.pad bs.length := by
  unfold stride at h
  cases hv : l.isVariable with
  | true =>
      rw [if_pos hv] at h
      cases x with
      | word w => contradiction
      | ref payload =>
          have hstride : l.align.pad (payload.length + variableHeaderSize) = n := Except.ok.inj h
          have hle : payload.length + variableHeaderSize ≤ maxVariableSize :=
            Nat.le_trans (l.align.le_pad _) (by omega)
          refine ⟨_, (pack_eq_ok_iff_of_isVariable hv).mpr ⟨payload, rfl, hle, rfl⟩, ?_⟩
          rw [← hstride, List.length_append, length_leBytes]
          exact congrArg l.align.pad (Nat.add_comm _ _)
  | false =>
      rw [if_neg (by simp [hv])] at h
      cases hp : l.pack x with
      | error e => simp [hp, Except.map] at h
      | ok bs =>
          rw [hp] at h
          exact ⟨bs, rfl, (Except.ok.inj h).symm⟩

end Layout

/-! ## storing -/

namespace Region

@[simp] theorem cursor_advance (r : Region) (piece : List UInt8) :
    (r.advance piece).cursor = r.cursor + piece.length := rfl

@[simp] theorem after_advance (r : Region) (piece : List UInt8) :
    (r.advance piece).after = r.after.drop piece.length := rfl

/-- Two pieces in a row are one piece. -/
theorem advance_advance (r : Region) (xs ys : List UInt8) :
    (r.advance xs).advance ys = r.advance (xs ++ ys) := by
  simp [advance, List.reverseAux_eq, Nat.add_assoc]

/-- A region that is zero from an aligned cursor on takes an element by taking
its block. -/
theorem store_eq {r : Region} {l : Layout} {x : Scalar} {bs : List UInt8}
    (hp : l.pack x = .ok bs) (hcursor : l.align.width ∣ r.cursor)
    (hzero : ∀ b ∈ r.after, b = 0) (hroom : (l.block x).length ≤ r.after.length) :
    r.store l x = (r.advance (l.block x), .ok (l.block x).length) := by
  have hlen := Layout.length_block_of_pack hp
  have hle := l.align.le_pad bs.length
  have hblock : l.block x = bs ++ List.replicate ((l.block x).length - bs.length) 0 := by
    rw [hlen]
    exact Layout.block_eq_of_pack hp
  have hwrite : r.write bs = some (r.advance bs) := by
    rw [write, front?_eq_some_iff.mpr ⟨by omega, rfl⟩]
    rfl
  have hgap : l.align.pad (r.advance bs).cursor - (r.advance bs).cursor =
      (l.block x).length - bs.length := by
    rw [cursor_advance, Align.pad_add hcursor]
    omega
  have hpadding : front? ((l.block x).length - bs.length) (r.advance bs).after =
      some (List.replicate ((l.block x).length - bs.length) 0) := by
    have hfit : (l.block x).length - bs.length ≤ (r.advance bs).after.length := by
      rw [after_advance, List.length_drop]
      omega
    rw [front?_eq_some_iff]
    refine ⟨hfit, List.eq_replicate_iff.mpr ⟨List.length_take_of_le hfit, fun b hb => ?_⟩⟩
    exact hzero b (List.mem_of_mem_drop (List.mem_of_mem_take hb))
  have halign : (r.advance bs).alignCursor l.align = some (r.advance (l.block x)) := by
    rw [alignCursor, bump, hgap, hpadding, Option.map_some, Option.map_some, advance_advance,
      ← hblock]
  rw [store, hp]
  simp [hwrite, halign]

end Region

end PackedArray
