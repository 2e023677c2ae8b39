import PackedArray.Operator.Scaling
import PackedArray.Proofs.Construction
import PackedArray.Proofs.Decoding

/-!
# PackedArray.Proofs.Obtained

The arrays that callers can get hold of.

Arrays come from the makers, from the decoder and from scaling, in any order.
`NdArray.Obtained` lists the ways, and `NdArray.Made` those that are makers.

* `NdArray.Obtained.origin` — however many steps it took, the array is empty,
  assembled from a shape, flags and data, or decoded.
-/

namespace PackedArray

/-! ## numeric kinds -/

namespace Kind

variable (k : Kind)

@[simp] theorem isVariable_layout : k.layout.isVariable = false := by
  match k with
  | .int .two | .int .four | .int .eight | .float4 | .float8 => rfl

theorem len_layout_pos : 0 < k.layout.len := by
  match k with
  | .int .two | .int .four | .int .eight | .float4 | .float8 => decide

theorem toNat_len_mem_wordWidths : k.layout.len.toNat ∈ Scalar.wordWidths := by
  match k with
  | .int .two | .int .four | .int .eight | .float4 | .float8 => decide

theorem len_layout_le : k.layout.len ≤ 8 := by
  match k with
  | .int .two | .int .four | .int .eight | .float4 | .float8 => decide

end Kind

/-- The room of one item of a numeric kind, padding included. -/
def Kind.itemSize (k : Kind) : Nat := k.layout.align.pad k.layout.len.toNat

/-- Numeric items need no padding. -/
theorem Kind.itemSize_eq (k : Kind) : k.itemSize = k.layout.len.toNat := by
  match k with
  | .int .two | .int .four | .int .eight | .float4 | .float8 => rfl

/-- No kind is as narrow as the two bytes that a zero takes at least. -/
theorem Kind.toNat_max_len (k : Kind) : (max k.layout.len 2).toNat = k.itemSize := by
  match k with
  | .int .two | .int .four | .int .eight | .float4 | .float8 => rfl

/-- A tag goes with a layout if it is not numeric, or if the layout is the one
of its kind. -/
def Tag.Admits (t : Tag) (l : Layout) : Prop := ∀ k, t.kind? = some k → l = k.layout

namespace NdArray

/-! ## ways of obtaining an array -/

/-- The arrays that can be obtained while tags are used with layouts as `fits`
allows.  Only an array of no dimensions comes out of scaling as it went in; of
any other it does not matter where it came from. -/
inductive Obtained (fits : Tag → Layout → Prop) : NdArray → Prop
  | empty (tag : Tag) : Obtained fits (empty tag)
  | ofElements {elems nulls dims lbounds tag l a} :
      fits tag l → ofElements elems nulls dims lbounds tag l = .ok a → Obtained fits a
  | vectorOfElements {elems n tag l a} :
      fits tag l → vectorOfElements elems n tag l = .ok a → Obtained fits a
  | zeros {dims lbounds tag l a} :
      fits tag l → zeros dims lbounds tag l = .ok a → Obtained fits a
  | zeroVector {n tag l a} : fits tag l → zeroVector n tag l = .ok a → Obtained fits a
  | ofElementsOrZeros {elems nulls dims lbounds tag l a} :
      fits tag l → ofElementsOrZeros elems nulls dims lbounds tag l = .ok a → Obtained fits a
  | vectorOrZeros {elems n tag l a} :
      fits tag l → vectorOrZeros elems n tag l = .ok a → Obtained fits a
  | ofPacked {raw dims lbounds tag l a} :
      fits tag l → ofPacked raw dims lbounds tag l = .ok a → Obtained fits a
  | vectorOfPacked {raw n tag l a} :
      fits tag l → vectorOfPacked raw n tag l = .ok a → Obtained fits a
  | decode {buf a} : decode buf = .ok a → Obtained fits a
  | mapScalar {source scalar f a} :
      (source.isEmpty = true → Obtained fits source) →
      (mapScalar source scalar f).result = .ok a → Obtained fits a

/-- The arrays that a maker gives while tags are used with layouts as `fits` allows. -/
inductive Made (fits : Tag → Layout → Prop) : NdArray → Prop
  | empty (tag : Tag) : Made fits (empty tag)
  | ofElements {elems nulls dims lbounds tag l a} :
      fits tag l → ofElements elems nulls dims lbounds tag l = .ok a → Made fits a
  | vectorOfElements {elems n tag l a} :
      fits tag l → vectorOfElements elems n tag l = .ok a → Made fits a
  | zeros {dims lbounds tag l a} :
      fits tag l → zeros dims lbounds tag l = .ok a → Made fits a
  | zeroVector {n tag l a} : fits tag l → zeroVector n tag l = .ok a → Made fits a
  | ofElementsOrZeros {elems nulls dims lbounds tag l a} :
      fits tag l → ofElementsOrZeros elems nulls dims lbounds tag l = .ok a → Made fits a
  | vectorOrZeros {elems n tag l a} :
      fits tag l → vectorOrZeros elems n tag l = .ok a → Made fits a
  | ofPacked {raw dims lbounds tag l a} :
      fits tag l → ofPacked raw dims lbounds tag l = .ok a → Made fits a
  | vectorOfPacked {raw n tag l a} :
      fits tag l → vectorOfPacked raw n tag l = .ok a → Made fits a

theorem Made.obtained {fits : Tag → Layout → Prop} {a : NdArray} (h : Made fits a) :
    Obtained fits a := by
  cases h with
  | empty tag => exact .empty tag
  | ofElements hfits h => exact .ofElements hfits h
  | vectorOfElements hfits h => exact .vectorOfElements hfits h
  | zeros hfits h => exact .zeros hfits h
  | zeroVector hfits h => exact .zeroVector hfits h
  | ofElementsOrZeros hfits h => exact .ofElementsOrZeros hfits h
  | vectorOrZeros hfits h => exact .vectorOrZeros hfits h
  | ofPacked hfits h => exact .ofPacked hfits h
  | vectorOfPacked hfits h => exact .vectorOfPacked hfits h

/-- Assembled under a layout: a counted shape, a flag for each item, and data
within the ceiling, which a layout of a numeric kind fills with the present
items. -/
inductive Assembled (l : Layout) : NdArray → Prop
  | mk {tag dims lbounds flags data} :
      dims ≠ [] → checkDimensions dims lbounds = .ok () →
      itemCount dims = .ok flags.length → data.length ≤ maxDataSize →
      (∀ k : Kind, l = k.layout → data.length = flags.count false * k.itemSize) →
      Assembled l (assemble tag dims lbounds flags data)

/-! ## what the makers give -/

theorem length_presentElements {elems : List Scalar} {flags : List Bool}
    (h : elems.length = flags.length) :
    (presentElements elems flags).length = flags.count false := by
  induction elems generalizing flags with
  | nil =>
      have hnil : flags = [] := List.eq_nil_of_length_eq_zero h.symm
      subst hnil
      rfl
  | cons x elems ih =>
      cases flags with
      | nil => contradiction
      | cons flag flags =>
          have hrest := ih (Nat.succ.inj h)
          cases flag with
          | true => simpa [presentElements] using hrest
          | false => simpa [presentElements] using hrest

section Makers

variable {dims lbounds : List Int32} {tag : Tag} {l : Layout} {a : NdArray}

theorem assembled_of_ofElements {elems : List Scalar} {nulls : Option (List Bool)}
    (h : ofElements elems nulls dims lbounds tag l = .ok a) :
    a.tag = tag ∧ (a = empty tag ∨ Assembled l a) := by
  obtain ⟨-, -, rfl⟩ | ⟨hne, hcheck, n, flags, size, hn, hle, hflags, -, hsize, rfl⟩ :=
    ofElements_eq_ok_iff.mp h
  · exact ⟨rfl, .inl rfl⟩
  · obtain ⟨hpack, hlen, hmax⟩ := Layout.pack_of_measureFrom hsize (Nat.zero_le _)
    obtain ⟨rfl, -⟩ := nullFlags_eq_ok_iff.mp hflags
    refine ⟨rfl, .inr (.mk hne hcheck hn (by omega) ?_)⟩
    rintro k rfl
    rw [Layout.length_flatMap_block k.isVariable_layout hpack,
      length_presentElements (List.length_take_of_le hle), Kind.itemSize]

theorem assembled_of_zeros (h : zeros dims lbounds tag l = .ok a) :
    a.tag = tag ∧ (a = empty tag ∨ Assembled l a) := by
  obtain ⟨-, -, rfl⟩ | ⟨hne, hcheck, n, hn, -, hsize, rfl⟩ := zeros_eq_ok_iff.mp h
  · exact ⟨rfl, .inl rfl⟩
  · refine ⟨rfl, .inr (.mk hne hcheck ?_ ?_ ?_)⟩
    · rwa [List.length_replicate]
    · rwa [List.length_replicate]
    · rintro k rfl
      rw [List.length_replicate, List.count_replicate_self, k.toNat_max_len, Nat.mul_comm]

theorem assembled_of_ofPacked {raw : List UInt8} (h : ofPacked raw dims lbounds tag l = .ok a) :
    a.tag = tag ∧ (a = empty tag ∨ Assembled l a) := by
  obtain ⟨-, -, rfl⟩ | ⟨hne, hcheck, n, hn, -, hraw, hsize, rfl⟩ := ofPacked_eq_ok_iff.mp h
  · exact ⟨rfl, .inl rfl⟩
  · have hlen : (raw.take (l.len.toNat * n)).length = l.len.toNat * n :=
      List.length_take_of_le hraw
    refine ⟨rfl, .inr (.mk hne hcheck ?_ ?_ ?_)⟩
    · rwa [List.length_replicate]
    · rwa [hlen]
    · rintro k rfl
      rw [hlen, List.count_replicate_self, Kind.itemSize_eq, Nat.mul_comm]

/-- A scaled array is the source itself, if that has no dimensions, or made of
elements under the layout of its tag. -/
theorem origin_of_mapScalar {source : NdArray} {scalar : Scalar} {f : Combiner}
    (h : (mapScalar source scalar f).result = .ok a) :
    source.isEmpty = true ∧ a = source ∨
      source.isEmpty = false ∧ ∃ k elems nulls, source.tag.kind? = some k ∧
        ofElements elems nulls source.dims source.lbounds source.tag k.layout = .ok a := by
  unfold mapScalar at h
  cases hempty : source.isEmpty with
  | true =>
      rw [if_pos hempty] at h
      exact .inl ⟨rfl, (Except.ok.inj h).symm⟩
  | false =>
      rw [if_neg (by simp [hempty])] at h
      cases hk : source.tag.kind? with
      | none => simp [hk] at h
      | some k =>
          simp only [hk] at h
          split at h
          · contradiction
          · split at h
            · contradiction
            · next items _ =>
                generalize hbuilt : ofElements _ _ _ _ _ _ = built at h
                cases built with
                | error e => contradiction
                | ok b =>
                    obtain rfl : b = a := Except.ok.inj h
                    exact .inr ⟨rfl, k, _, _, rfl, hbuilt⟩

end Makers

/-! ## origins -/

/-- How an array has come about in the end, whatever was done to others on the
way. -/
inductive Origin (fits : Tag → Layout → Prop) : NdArray → Prop
  | empty (tag : Tag) : Origin fits (.empty tag)
  | assembled {l : Layout} {a : NdArray} :
      (fits a.tag l ∨ a.tag.layout? = some l) → Assembled l a → Origin fits a
  | decoded {buf : List UInt8} {a : NdArray} : NdArray.decode buf = .ok a → Origin fits a

variable {fits : Tag → Layout → Prop} {a : NdArray}

/-- What is made is the empty array, or assembled under a layout that its tag may be
used with. -/
theorem Made.empty_or_assembled (h : Made fits a) :
    a = .empty a.tag ∨ ∃ l, fits a.tag l ∧ Assembled l a := by
  have of_made {tag : Tag} {l : Layout} (hfits : fits tag l)
      (h : a.tag = tag ∧ (a = .empty tag ∨ Assembled l a)) :
      a = .empty a.tag ∨ ∃ l, fits a.tag l ∧ Assembled l a := by
    obtain ⟨rfl, hempty | hassembled⟩ := h
    · exact .inl hempty
    · exact .inr ⟨l, hfits, hassembled⟩
  cases h with
  | empty tag => exact .inl rfl
  | ofElements hfits h => exact of_made hfits (assembled_of_ofElements h)
  | vectorOfElements hfits h =>
      obtain ⟨extent, -, h⟩ := bind_eq_ok_iff.mp h
      exact of_made hfits (assembled_of_ofElements h)
  | zeros hfits h => exact of_made hfits (assembled_of_zeros h)
  | zeroVector hfits h =>
      obtain ⟨extent, -, h⟩ := bind_eq_ok_iff.mp h
      exact of_made hfits (assembled_of_zeros h)
  | @ofElementsOrZeros elems _ _ _ _ _ _ hfits h =>
      cases elems with
      | none => exact of_made hfits (assembled_of_zeros h)
      | some elems => exact of_made hfits (assembled_of_ofElements h)
  | @vectorOrZeros elems _ _ _ _ hfits h =>
      cases elems with
      | none =>
          obtain ⟨extent, -, h⟩ := bind_eq_ok_iff.mp h
          exact of_made hfits (assembled_of_zeros h)
      | some elems =>
          obtain ⟨extent, -, h⟩ := bind_eq_ok_iff.mp h
          exact of_made hfits (assembled_of_ofElements h)
  | ofPacked hfits h => exact of_made hfits (assembled_of_ofPacked h)
  | vectorOfPacked hfits h =>
      obtain ⟨extent, -, h⟩ := bind_eq_ok_iff.mp h
      exact of_made hfits (assembled_of_ofPacked h)

theorem Made.origin (h : Made fits a) : Origin fits a := by
  obtain hempty | ⟨l, hfits, hassembled⟩ := h.empty_or_assembled
  · rw [hempty]
    exact .empty _
  · exact .assembled (.inl hfits) hassembled

/-- **Where arrays come from**: whatever can be obtained is the empty array,
was assembled under a layout that its tag may be used with, or was decoded. -/
theorem Obtained.origin (h : Obtained fits a) : Origin fits a := by
  induction h with
  | empty tag => exact .empty tag
  | ofElements hfits h => exact (Made.ofElements hfits h).origin
  | vectorOfElements hfits h => exact (Made.vectorOfElements hfits h).origin
  | zeros hfits h => exact (Made.zeros hfits h).origin
  | zeroVector hfits h => exact (Made.zeroVector hfits h).origin
  | ofElementsOrZeros hfits h => exact (Made.ofElementsOrZeros hfits h).origin
  | vectorOrZeros hfits h => exact (Made.vectorOrZeros hfits h).origin
  | ofPacked hfits h => exact (Made.ofPacked hfits h).origin
  | vectorOfPacked hfits h => exact (Made.vectorOfPacked hfits h).origin
  | decode h => exact .decoded h
  | mapScalar _ h ih =>
      -- only an array of no dimensions is handed on, so only then is its origin asked for
      obtain ⟨hempty, rfl⟩ | ⟨-, k, elems, nulls, hk, h⟩ := origin_of_mapScalar h
      · exact ih hempty
      · obtain ⟨htag, hempty | hassembled⟩ := assembled_of_ofElements h
        · rw [hempty]
          exact .empty _
        · refine .assembled (.inr ?_) hassembled
          rw [htag]
          exact congrArg (Option.map Kind.layout) hk

end NdArray

end PackedArray
