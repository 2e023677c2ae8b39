import PackedArray.Proofs.Packing

/-!
# PackedArray.Proofs.Storing

An element stored anywhere in a region, and read back at any time later.

Storing moves a cursor over the bytes of the element and then to a boundary; reading
pads the position behind the bytes that it read.  Both pad one and the same position,
whether or not the element itself stands on a boundary.

* `Region.store_cases` — all that can come of a store;
* `Region.keeps_storeEach` — no store reaches back behind the cursor;
* `Region.store_places` — a stored element can be fetched from then on.
-/

namespace PackedArray

namespace Region

variable {r next : Region} {l : Layout} {x : Scalar} {n : Nat} {bs : List UInt8}

theorem cursor_le_length_bytes (r : Region) : r.cursor ≤ r.bytes.length := by
  rw [length_bytes]
  exact r.cursor_le_length

/-- A store writes the bytes of the element at the cursor, or changes nothing where there
are none or no room for them.  The cursor comes to the boundary behind them, or stays at
their end where the boundary lies outside. -/
theorem store_cases (r : Region) (l : Layout) (x : Scalar) :
    (∃ e, r.store l x = (r, .error e) ∧
        ∀ bs, l.pack x = .ok bs → r.length < r.cursor + bs.length) ∨
      ∃ bs next, l.pack x = .ok bs ∧ next.bytes = overwrite r.bytes r.cursor bs ∧
        (next.cursor = l.align.pad (r.cursor + bs.length) ∧
            l.align.pad (r.cursor + bs.length) ≤ r.length ∧
            r.store l x = (next, .ok (next.cursor - r.cursor)) ∨
          next.cursor = r.cursor + bs.length ∧
            r.length < l.align.pad (r.cursor + bs.length) ∧
            r.store l x = (next, .error (.malformed .paddingOverrun))) := by
  unfold store
  cases hpack : l.pack x with
  | error e => exact .inl ⟨e, rfl, fun _ h => by contradiction⟩
  | ok bs =>
      cases hwrite : r.write bs with
      | none =>
          refine .inl ⟨.malformed .elementOverrun, by simp only [hwrite], ?_⟩
          rintro _ ⟨⟩
          exact write_eq_none_iff.mp hwrite
      | some written =>
          obtain ⟨-, hbytes, hcursor, -⟩ := bytes_of_write hwrite
          have hlength := length_of_write hwrite
          refine .inr ⟨bs, ?_⟩
          cases halign : written.alignCursor l.align with
          | none =>
              have hout := alignCursor_eq_none_iff.mp halign
              rw [hlength, hcursor] at hout
              exact ⟨written, rfl, hbytes, .inr ⟨hcursor, hout, by simp only [hwrite, halign]⟩⟩
          | some padded =>
              obtain ⟨hsame, hpad, -⟩ := bytes_of_alignCursor halign
              have hin : l.align.pad (r.cursor + bs.length) ≤ r.length := by
                rw [← hlength, ← hcursor, ← Nat.not_lt, ← alignCursor_eq_none_iff, halign]
                simp
              exact ⟨padded, rfl, hsame.trans hbytes,
                .inl ⟨hcursor ▸ hpad, hin, by simp only [hwrite, halign]⟩⟩

/-! ## what is behind the cursor -/

/-- All that was handed out of a region has been left alone. -/
structure Keeps (r next : Region) : Prop where
  cursor_le : r.cursor ≤ next.cursor
  take_eq : next.bytes.take r.cursor = r.bytes.take r.cursor

theorem Keeps.refl (r : Region) : r.Keeps r := ⟨Nat.le_refl _, rfl⟩

theorem Keeps.take_eq_of_le (h : r.Keeps next) {k : Nat} (hk : k ≤ r.cursor) :
    next.bytes.take k = r.bytes.take k := by
  have htake := congrArg (List.take k) h.take_eq
  rwa [List.take_take, List.take_take, Nat.min_eq_left hk] at htake

theorem Keeps.trans {last : Region} (h : r.Keeps next) (h' : next.Keeps last) : r.Keeps last where
  cursor_le := Nat.le_trans h.cursor_le h'.cursor_le
  take_eq := (h'.take_eq_of_le h.cursor_le).trans h.take_eq

theorem keeps_of_overwrite (hbytes : next.bytes = overwrite r.bytes r.cursor bs)
    (hcursor : r.cursor + bs.length ≤ next.cursor) : r.Keeps next where
  cursor_le := by omega
  take_eq := by
    have hlen := r.cursor_le_length_bytes
    rw [hbytes, overwrite, List.append_assoc, List.take_left' (List.length_take_of_le hlen)]

/-- Stores only go forwards. -/
theorem keeps_store (r : Region) (l : Layout) (x : Scalar) : r.Keeps (r.store l x).1 := by
  obtain ⟨e, hstore, -⟩ | ⟨bs, next, -, hbytes, ⟨hcursor, -, hstore⟩ | ⟨hcursor, -, hstore⟩⟩ :=
    r.store_cases l x
  · rw [hstore]
    exact .refl r
  · rw [hstore]
    exact keeps_of_overwrite hbytes (hcursor ▸ l.align.le_pad _)
  · rw [hstore]
    exact keeps_of_overwrite hbytes (Nat.le_of_eq hcursor.symm)

/-- Store elements of any layouts one after the other, and go on where one cannot be
stored. -/
def storeEach (r : Region) (elements : List (Layout × Scalar)) : Region :=
  elements.foldl (fun r (l, x) => (r.store l x).1) r

theorem keeps_storeEach (r : Region) (elements : List (Layout × Scalar)) :
    r.Keeps (r.storeEach elements) := by
  induction elements generalizing r with
  | nil => exact .refl r
  | cons element rest ih => exact (r.keeps_store element.1 element.2).trans (ih _)

/-! ## storing and fetching -/

/-- The bytes of the element stand where the cursor was, whatever is stored after it. -/
theorem drop_bytes_of_keeps {last : Region} (hbytes : next.bytes = overwrite r.bytes r.cursor bs)
    (hcursor : r.cursor + bs.length ≤ next.cursor) (h : next.Keeps last) :
    ∃ rest, last.bytes.drop r.cursor = bs ++ rest := by
  have hlen := r.cursor_le_length_bytes
  have htake : last.bytes.take (r.cursor + bs.length) = r.bytes.take r.cursor ++ bs := by
    rw [h.take_eq_of_le hcursor, hbytes, take_overwrite hlen]
  have hsplit := List.take_append_drop (r.cursor + bs.length) last.bytes
  rw [htake, List.append_assoc] at hsplit
  refine ⟨last.bytes.drop (r.cursor + bs.length), ?_⟩
  rw [← hsplit, List.drop_left' (List.length_take_of_le hlen), hsplit]

/-- An element has been stored at the cursor of `r`, and took `n` bytes with its
padding. -/
structure Places (r : Region) (l : Layout) (x : Scalar) (next : Region) (n : Nat) : Prop where
  cursor_eq : next.cursor = r.cursor + n
  dvd_cursor : l.align.width ∣ next.cursor
  /-- The bytes that the element is packed to are all that was written. -/
  getElem?_eq : ∃ bs, l.pack x = .ok bs ∧ bs.length ≤ n ∧
    ∀ i, i < r.cursor ∨ r.cursor + bs.length ≤ i → next.bytes[i]? = r.bytes[i]?
  /-- Whatever is stored later, the element can be fetched, and the fetch leads to where
  the store led. -/
  fetch_storeEach : ∀ later, l.fetch (next.storeEach later).bytes r.cursor =
    .ok (l.canonical x, next.cursor)
  /-- From a boundary on, the stride tells the room. -/
  stride_eq : l.align.width ∣ r.cursor → l.stride x = .ok n

theorem places_of_overwrite (hpack : l.pack x = .ok bs)
    (hbytes : next.bytes = overwrite r.bytes r.cursor bs)
    (hcursor : next.cursor = l.align.pad (r.cursor + bs.length)) :
    r.Places l x next (next.cursor - r.cursor) := by
  have hle : r.cursor + bs.length ≤ next.cursor := hcursor ▸ l.align.le_pad _
  refine ⟨by omega, hcursor ▸ l.align.dvd_pad _, ⟨bs, hpack, by omega, fun i hi => ?_⟩,
    fun later => ?_, fun hdvd => ?_⟩
  · rw [hbytes, getElem?_overwrite r.cursor_le_length_bytes hi]
  · -- the reader pads the end of these bytes, which is where the writer was aligned
    obtain ⟨rest, hrest⟩ := drop_bytes_of_keeps hbytes hle (next.keeps_storeEach later)
    rw [Layout.fetch, hrest, Layout.unpack_append hpack, hcursor]
    rfl
  · rw [Layout.stride_eq_of_pack hpack, Layout.length_block_of_pack hpack, hcursor,
      Align.pad_add hdvd, Nat.add_sub_cancel_left]

/-- **A store is undone by a fetch**: an element that was stored, at whatever cursor, is
fetched from there in canonical form.  It is stored exactly when it can be packed and the
boundary behind it lies inside the region; otherwise nothing has changed, unless the bytes
fitted and the padding did not. -/
theorem store_places (r : Region) (l : Layout) (x : Scalar) :
    match r.store l x with
    | (next, .ok n) => r.Places l x next n ∧
        ∃ bs, l.pack x = .ok bs ∧ l.align.pad (r.cursor + bs.length) ≤ r.length
    | (next, .error e) => (e = .malformed .paddingOverrun ∨ next = r) ∧
        ∀ bs, l.pack x = .ok bs → r.length < l.align.pad (r.cursor + bs.length) := by
  obtain ⟨e, hstore, hout⟩ | ⟨bs, next, hpack, hbytes, hend⟩ := r.store_cases l x
  · rw [hstore]
    exact ⟨.inr rfl, fun bs hpack => Nat.lt_of_lt_of_le (hout bs hpack) (l.align.le_pad _)⟩
  · obtain ⟨hcursor, hin, hstore⟩ | ⟨-, hout, hstore⟩ := hend
    · rw [hstore]
      exact ⟨places_of_overwrite hpack hbytes hcursor, bs, hpack, hin⟩
    · rw [hstore]
      refine ⟨.inl rfl, fun other hother => ?_⟩
      rw [hpack] at hother
      cases hother
      exact hout

/-- A text that starts off its boundary. -/
theorem store_places_misaligned :
    let r := ((Region.zeros 16).store .bool (.word 1)).1
    let next := (r.store .text (.ref [104, 105])).1
    r.cursor = 1 ∧ (r.store .text (.ref [104, 105])).2 = .ok 7 ∧
      r.Places .text (.ref [104, 105]) next 7 :=
  ⟨rfl, rfl,
    (store_places ((Region.zeros 16).store .bool (.word 1)).1 .text (.ref [104, 105])).1⟩

end Region

end PackedArray
