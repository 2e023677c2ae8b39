import PackedArray.Proofs.Machine.Basic
import PackedArray.Proofs.Pieces

/-!
# PackedArray.Proofs.Machine.Block

Blocks of storage, with a length and a cursor in words.

A region keeps its bytes on both sides of the cursor, so its cursor is inside by its very
form.  What runs in its place is storage and two words beside it.  A request is added to the
cursor and held against the length, a boundary is cut out by a mask, and what remains is a
difference of the two words.  Nothing but the operations keeps the words in order, and a slice
of the storage in bounds.

* `boundary_eq` — the boundary that the mask cuts out;
* `Block.Sound.bump_eq`, `Block.Sound.alignCursor_eq` — a request is met or changes nothing;
* `Block.apply_ofRegion`, `Block.run_ofRegion` — each step of a block is that of its region, and
  so is every run;
* `Block.run_disciplined` — what can be counted on, whatever is done to a block.
-/

namespace PackedArray.Machine

open Region (Op InUse Origin Held)

variable {ε : Type}

/-! ## words -/

/-- The sum of unsigned words, if a word can hold it. -/
def addWords? (x y : UInt64) : Option UInt64 :=
  if x.toNat + y.toNat < 0x10000000000000000 then some (x + y) else none

/-- A sum of unsigned words. -/
def addWords (x y : UInt64) : Run ε UInt64 := do
  demand (x.toNat + y.toNat < 0x10000000000000000)
  return x + y

/-- A difference of unsigned words. -/
def subWords (x y : UInt64) : Run ε UInt64 := do
  demand (y ≤ x)
  return x - y

/-- The next boundary: one less than the width is added, and the low bits are cut off. -/
def boundary (a : Align) (off : UInt64) : Run ε UInt64 := do
  let past ← addWords off (UInt64.ofNat a.width)
  let last ← subWords past 1
  let low ← subWords (UInt64.ofNat a.width) 1
  return last &&& ~~~low

section Words

variable {x y : UInt64}

theorem toNat_addWords (h : x.toNat + y.toNat < 0x10000000000000000) :
    (x + y).toNat = x.toNat + y.toNat := by
  rw [UInt64.toNat_add, Nat.mod_eq_of_lt h]

theorem addWords_of_lt (h : x.toNat + y.toNat < 0x10000000000000000) :
    (addWords x y : Run ε UInt64) = .ok (x + y) := by
  rw [addWords, demand_of h]
  rfl

theorem subWords_of_le (h : y ≤ x) : (subWords x y : Run ε UInt64) = .ok (x - y) := by
  rw [subWords, demand_of h]
  rfl

theorem toNat_ofNat_of_lt {n : Nat} (h : n < 0x10000000000000000) : (UInt64.ofNat n).toNat = n :=
  UInt64.toNat_ofNat_of_lt' h

/-- A mask without the bits below bit `k` cuts off what does not fill them. -/
theorem and_high_bits {n k : Nat} (hn : n < 0x10000000000000000) (hk : k < 64) :
    n &&& (0x10000000000000000 - 1 <<< k) = n / 1 <<< k * 1 <<< k := by
  have hpow : 1 <<< k = 2 ^ k := Nat.one_shiftLeft k
  have hlow : 2 ^ k - 1 < 2 ^ 64 :=
    Nat.lt_of_le_of_lt (Nat.sub_le _ _) (Nat.pow_lt_pow_right (by decide) hk)
  have hword : 0x10000000000000000 = 2 ^ 64 := rfl
  have hmask : 0x10000000000000000 - 2 ^ k = 2 ^ 64 - (2 ^ k - 1 + 1) := by
    rw [Nat.sub_add_cancel Nat.one_le_two_pow, hword]
  refine Nat.eq_of_testBit_eq fun i => ?_
  rw [hpow, hmask, Nat.testBit_and, Nat.testBit_two_pow_sub_succ hlow, Nat.testBit_two_pow_sub_one,
    Nat.testBit_mul_two_pow, Nat.testBit_div_two_pow]
  by_cases hki : k ≤ i
  · by_cases hi : i < 64
    · simp [hki, hi, Nat.not_lt.mpr hki]
    · have hle : 2 ^ 64 ≤ 2 ^ i := Nat.pow_le_pow_right (by decide) (Nat.le_of_not_lt hi)
      have hzero : n.testBit i = false := Nat.testBit_lt_two_pow (Nat.lt_of_lt_of_le hn hle)
      simp [hki, hi, hzero]
  · simp [hki, Nat.lt_of_not_le hki]

theorem exists_width_eq (a : Align) : ∃ k < 64, a.width = 1 <<< k := by
  cases a
  · exact ⟨0, by decide, rfl⟩
  · exact ⟨1, by decide, rfl⟩
  · exact ⟨2, by decide, rfl⟩
  · exact ⟨3, by decide, rfl⟩

/-- Clearing the bits below the width of a boundary rounds down to it. -/
theorem toNat_and_not_low (a : Align) (h : y.toNat = a.width - 1) :
    (x &&& ~~~y).toNat = x.toNat / a.width * a.width := by
  obtain ⟨k, hk, hwidth⟩ := exists_width_eq a
  have hmask : UInt64.size - 1 - y.toNat = 0x10000000000000000 - 1 <<< k := by
    have hsize : UInt64.size = 0x10000000000000000 := rfl
    have hpos := a.width_pos
    omega
  rw [UInt64.toNat_and, UInt64.toNat_not, hmask, and_high_bits x.toNat_lt hk, hwidth]

/-- The mask cuts out the boundary of the library. -/
theorem boundary_eq (a : Align) (h : x.toNat ≤ Quota.addressLimit) :
    (boundary a x : Run ε UInt64) = .ok (UInt64.ofNat (a.pad x.toNat)) := by
  rw [Quota.addressLimit] at h
  have hpos := a.width_pos
  have hsmall := a.width_le_eight
  have hpad := a.pad_lt x.toNat
  have hone : (1 : UInt64).toNat = 1 := rfl
  have hwidth : (UInt64.ofNat a.width).toNat = a.width := toNat_ofNat_of_lt (by omega)
  have hsum : x.toNat + (UInt64.ofNat a.width).toNat < 0x10000000000000000 := by omega
  have hpast := toNat_addWords hsum
  have hlast : 1 ≤ x + UInt64.ofNat a.width := by
    rw [UInt64.le_iff_toNat_le]
    omega
  have hlow : 1 ≤ UInt64.ofNat a.width := by
    rw [UInt64.le_iff_toNat_le]
    omega
  rw [boundary, addWords_of_lt hsum, ok_bind, subWords_of_le hlast, ok_bind, subWords_of_le hlow,
    ok_bind]
  refine congrArg Except.ok (UInt64.toNat_inj.mp ?_)
  rw [toNat_and_not_low a (by rw [UInt64.toNat_sub_of_le _ _ hlow, hwidth, hone]),
    UInt64.toNat_sub_of_le _ _ hlast, hpast, hwidth, hone, toNat_ofNat_of_lt (by omega), Align.pad,
    Nat.add_sub_assoc hpos]

end Words

/-! ## blocks -/

/-- Storage, the number of bytes that can be handed out of it, and the first of them that has
not been. -/
structure Block where
  data : List UInt8
  len : UInt64
  cursor : UInt64

namespace Block

/-- A block over storage, which has to cover it. -/
def ofStorage (data : List UInt8) (len : UInt64) : Run ε Block := do
  demand (max len.toNat 1 ≤ data.length)
  return ⟨data, len, 0⟩

def empty : Block := ⟨[], 0, 0⟩

/-- Ask for a block.  A byte of storage is taken for one that has none itself. -/
def request (q : Quota) (size : UInt64) (flags : AllocFlags) : Run AllocError (Option Block) :=
  if !q.admits size.toNat then .error (.reported (.invalidSize size.toNat q.maxSize))
  else if Quota.addressLimit < max size.toNat 1 then
    if flags.noOom then .ok none else .error (.reported (.outOfMemory size.toNat))
  else do
    let block ← ofStorage (List.replicate (max size.toNat 1) 0) size
    return some block

/-- The block of an origin, unless the request fails. -/
def make : Origin → Run AllocError (Option Block)
  | .empty => .ok (some empty)
  | .requested q size flags => request q size flags

/-- The bytes that can be handed out. -/
def contents (b : Block) : Run ε (List UInt8) := slice b.data 0 b.len.toNat

def remaining (b : Block) : Run ε UInt64 := subWords b.len b.cursor

/-- Hand out the next `n` bytes, as a slice of the storage. -/
def bump (b : Block) (n : UInt64) : Run ε (Option Piece × Block) :=
  match addWords? b.cursor n with
  | none => .ok (none, b)
  | some stop =>
    if b.len < stop then .ok (none, b)
    else do
      let bytes ← slice b.data b.cursor.toNat stop.toNat
      return (some ⟨b.cursor.toNat, bytes.length⟩, { b with cursor := stop })

/-- Move the cursor to the next boundary. -/
def alignCursor (b : Block) (a : Align) : Run ε (Option UInt64 × Block) := do
  let next ← boundary a b.cursor
  if b.len < next then return (none, b) else return (some next, { b with cursor := next })

def reset (b : Block) : Block := { b with cursor := 0 }

/-- Replace byte `i` of the storage. -/
def put (b : Block) (i : Nat) (v : UInt8) : Run ε Block := do
  demand (i < b.data.length)
  return { b with data := b.data.set i v }

/-- Do one thing. -/
def apply (u : InUse Block) : Op → Run ε (InUse Block)
  | .bump n => do return u.answered (← u.storage.bump n)
  | .align a => do return u.changed (← u.storage.alignCursor a).2
  | .reset => return u.restarted u.storage.reset
  | .write p i v =>
    if p ∈ u.pieces ∧ i < p.size then do return u.changed (← u.storage.put (p.start + i) v)
    else return u

/-- Do one thing after the other. -/
def run (u : InUse Block) (ops : List Op) : Run ε (InUse Block) := ops.foldlM apply u

/-- A block in order: the cursor is inside, the storage covers all of it, and an address space
holds it. -/
structure Sound (b : Block) : Prop where
  cursor_le_len : b.cursor ≤ b.len
  len_le_length_data : b.len.toNat ≤ b.data.length
  len_le_limit : b.len.toNat ≤ Quota.addressLimit

namespace Sound

variable {b : Block} (h : b.Sound)

include h

theorem toNat_cursor_le : b.cursor.toNat ≤ b.len.toNat := UInt64.le_iff_toNat_le.mp h.cursor_le_len

theorem contents_eq : (b.contents : Run ε _) = .ok (b.data.take b.len.toNat) :=
  slice_of_le (Nat.zero_le _) h.len_le_length_data

theorem remaining_eq : (b.remaining : Run ε _) = .ok (b.len - b.cursor) :=
  subWords_of_le h.cursor_le_len

/-- The request fits just if its sum with the cursor, taken without a wrap, is within the
length. -/
theorem le_sub_iff (n : UInt64) :
    n ≤ b.len - b.cursor ↔ b.cursor.toNat + n.toNat ≤ b.len.toNat := by
  have hle := h.toNat_cursor_le
  rw [UInt64.le_iff_toNat_le, UInt64.toNat_sub_of_le _ _ h.cursor_le_len]
  omega

theorem bump_eq (n : UInt64) :
    (b.bump n : Run ε _) =
      .ok (if n ≤ b.len - b.cursor then
        (some ⟨b.cursor.toNat, n.toNat⟩, { b with cursor := b.cursor + n })
      else (none, b)) := by
  have hdata := h.len_le_length_data
  have hlen := b.len.toNat_lt
  unfold bump addWords?
  by_cases hfits : b.cursor.toNat + n.toNat ≤ b.len.toNat
  · have hsum : b.cursor.toNat + n.toNat < 0x10000000000000000 := by omega
    have hstop := toNat_addWords hsum
    have hin : ¬b.len < b.cursor + n := by
      rw [UInt64.lt_iff_toNat_lt]
      omega
    have hsize : ((b.data.drop b.cursor.toNat).take
        ((b.cursor + n).toNat - b.cursor.toNat)).length = n.toNat := by
      rw [List.length_take, List.length_drop]
      omega
    simp only [if_pos hsum, if_neg hin, if_pos ((h.le_sub_iff n).mpr hfits)]
    rw [slice_of_le (by omega) (by omega), ok_bind, hsize]
    rfl
  · rw [if_neg (mt (h.le_sub_iff n).mp hfits)]
    -- a sum that wraps around is not formed, any other one is past the end
    by_cases hsum : b.cursor.toNat + n.toNat < 0x10000000000000000
    · have hout : b.len < b.cursor + n := by
        rw [UInt64.lt_iff_toNat_lt, toNat_addWords hsum]
        omega
      simp only [if_pos hsum, if_pos hout]
    · simp only [if_neg hsum]

theorem alignCursor_eq (a : Align) :
    (b.alignCursor a : Run ε _) =
      .ok (if a.pad b.cursor.toNat ≤ b.len.toNat then
        (some (UInt64.ofNat (a.pad b.cursor.toNat)),
          { b with cursor := UInt64.ofNat (a.pad b.cursor.toNat) })
      else (none, b)) := by
  have hcursor := Nat.le_trans h.toNat_cursor_le h.len_le_limit
  have hnext : (UInt64.ofNat (a.pad b.cursor.toNat)).toNat = a.pad b.cursor.toNat := by
    have hpad := a.pad_lt b.cursor.toNat
    have hsmall := a.width_le_eight
    rw [Quota.addressLimit] at hcursor
    exact toNat_ofNat_of_lt (by omega)
  have hlt : b.len < UInt64.ofNat (a.pad b.cursor.toNat) ↔
      ¬a.pad b.cursor.toNat ≤ b.len.toNat := by
    rw [UInt64.lt_iff_toNat_lt, hnext, Nat.not_le]
  rw [alignCursor, boundary_eq a hcursor, ok_bind]
  simp only [hlt]
  by_cases hin : a.pad b.cursor.toNat ≤ b.len.toNat
  · rw [if_neg (not_not_intro hin), if_pos hin]
    rfl
  · rw [if_pos hin, if_neg hin]
    rfl

end Sound

/-! ## blocks and regions -/

/-- The block of a region: what else there is of storage lies behind it. -/
def ofRegion (r : Region) : Block where
  data := r.bytes ++ List.replicate (r.backing - r.length) 0
  len := UInt64.ofNat r.length
  cursor := UInt64.ofNat r.cursor

variable {r next : Region} {pos : Nat}

theorem ofRegion_of_moved (h : r.Moved next pos) :
    ofRegion next = { ofRegion r with cursor := UInt64.ofNat pos } := by
  rw [ofRegion, ofRegion, h.bytes_eq, h.cursor_eq, h.backing_eq, h.length_eq]

theorem reset_ofRegion (r : Region) : (ofRegion r).reset = ofRegion r.reset :=
  (ofRegion_of_moved r.moved_reset).symm

section Held

variable (h : Held r)

include h

theorem toNat_len_ofRegion : (ofRegion r).len.toNat = r.length :=
  toNat_ofNat_of_lt (Nat.lt_of_le_of_lt h.length_le_limit (by decide))

theorem toNat_cursor_ofRegion : (ofRegion r).cursor.toNat = r.cursor :=
  toNat_ofNat_of_lt
    (Nat.lt_of_le_of_lt (Nat.le_trans r.cursor_le_length h.length_le_limit) (by decide))

theorem length_data_ofRegion : (ofRegion r).data.length = r.backing := by
  have hle := h.length_le_backing
  rw [ofRegion, List.length_append, List.length_replicate, Region.length_bytes]
  omega

theorem sound_ofRegion : (ofRegion r).Sound where
  cursor_le_len := by
    rw [UInt64.le_iff_toNat_le, toNat_cursor_ofRegion h, toNat_len_ofRegion h]
    exact r.cursor_le_length
  len_le_length_data := by
    rw [toNat_len_ofRegion h, length_data_ofRegion h]
    exact h.length_le_backing
  len_le_limit := by
    rw [toNat_len_ofRegion h]
    exact h.length_le_limit

theorem bump_ofRegion (n : UInt64) :
    ((ofRegion r).bump n : Run ε _) = .ok (Prod.map id ofRegion (r.bumped n.toNat)) := by
  have hfits : n ≤ (ofRegion r).len - (ofRegion r).cursor ↔ n.toNat ≤ r.remaining := by
    rw [(sound_ofRegion h).le_sub_iff, toNat_cursor_ofRegion h, toNat_len_ofRegion h, Region.length]
    exact Nat.add_le_add_iff_left
  have hnext : (ofRegion r).cursor + n = UInt64.ofNat (r.cursor + n.toNat) := by
    rw [UInt64.ofNat_add, UInt64.ofNat_toNat]
    rfl
  rw [(sound_ofRegion h).bump_eq]
  obtain ⟨hle, next, hbumped, hmoved⟩ | ⟨hlt, hbumped⟩ := r.bumped_cases n.toNat
  · rw [if_pos (hfits.mpr hle), hbumped, Prod.map, ofRegion_of_moved hmoved, hnext,
      toNat_cursor_ofRegion h]
    rfl
  · rw [if_neg (mt hfits.mp (Nat.not_le.mpr hlt)), hbumped]
    rfl

theorem alignCursor_ofRegion (a : Align) :
    ((ofRegion r).alignCursor a : Run ε _) =
      .ok (Prod.map (Option.map UInt64.ofNat) ofRegion (r.aligned a)) := by
  rw [(sound_ofRegion h).alignCursor_eq, toNat_cursor_ofRegion h, toNat_len_ofRegion h]
  obtain ⟨hin, next, haligned, hmoved⟩ | ⟨hout, haligned⟩ := r.aligned_cases a
  · rw [if_pos hin, haligned, Prod.map, ofRegion_of_moved hmoved]
    rfl
  · rw [if_neg (Nat.not_le.mpr hout), haligned]
    rfl

theorem put_ofRegion {i : Nat} (hi : i < r.length) (v : UInt8) :
    ((ofRegion r).put i v : Run ε _) = .ok (ofRegion (r.poked i v)) := by
  have hin : i < (ofRegion r).data.length := by
    rw [length_data_ofRegion h]
    exact Nat.lt_of_lt_of_le hi h.length_le_backing
  rw [put, demand_of hin, ok_bind]
  unfold ofRegion
  rw [Region.bytes_poked, Region.length_poked, Region.cursor_poked, Region.backing_poked,
    List.set_append_left i v (by rwa [Region.length_bytes])]
  rfl

end Held

/-! ## whatever is done -/

section Runs

variable {first : Region} {u : InUse Region}

/-- **One step** of a block is that of its region. -/
theorem apply_ofRegion (hu : u.Accounted first) (h : first.Held) (op : Op) :
    (apply (u.map ofRegion) op : Run ε _) = .ok ((u.apply op).map ofRegion) := by
  have hheld := hu.held h
  cases op with
  | bump n =>
      rw [apply, InUse.map, bump_ofRegion hheld]
      rfl
  | align a =>
      rw [apply, InUse.map, alignCursor_ofRegion hheld]
      rfl
  | reset =>
      rw [apply, InUse.map, reset_ofRegion]
      rfl
  | write p i v =>
      rw [apply, InUse.apply, InUse.pieces_map]
      by_cases hwrite : p ∈ u.pieces ∧ i < p.size
      · have hin : p.start + i < u.storage.length := by
          have hstop := hu.stop_le_length p hwrite.1
          have hi := hwrite.2
          rw [Piece.stop] at hstop
          rw [hu.length_eq]
          omega
        rw [if_pos hwrite, if_pos hwrite, InUse.map, put_ofRegion hheld hin]
        rfl
      · rw [if_neg hwrite, if_neg hwrite]
        rfl

/-- **A run** of a block is that of its region. -/
theorem run_ofRegion (hu : u.Accounted first) (h : first.Held) (ops : List Op) :
    (run (u.map ofRegion) ops : Run ε _) = .ok ((u.run ops).map ofRegion) := by
  induction ops generalizing u with
  | nil => rfl
  | cons op ops ih =>
      rw [run, List.foldlM_cons, apply_ofRegion hu h, ok_bind]
      exact ih (hu.apply op)

theorem ofRegion_zeros (size : UInt64) :
    ofRegion (Region.zeros size.toNat) = ⟨List.replicate (max size.toNat 1) 0, size, 0⟩ := by
  have hbacking : (Region.zeros size.toNat).backing = max size.toNat 1 := rfl
  have hcursor : (Region.zeros size.toNat).cursor = 0 := rfl
  rw [ofRegion, Region.bytes_zeros, Region.length_zeros, hbacking, hcursor, UInt64.ofNat_toNat,
    List.replicate_append_replicate, Nat.add_sub_cancel' (Nat.le_max_left _ _)]
  rfl

/-- A block comes about as its region does. -/
theorem make_eq (o : Origin) : make o = lift (o.region?.map (Option.map ofRegion)) := by
  cases o with
  | empty => rfl
  | requested q size flags =>
      have hlimit : Quota.addressLimit < max size.toNat 1 ↔ Quota.addressLimit < size.toNat := by
        rw [Quota.addressLimit]
        omega
      rw [make, request, Origin.region?, Quota.request_eq]
      simp only [hlimit]
      split
      · rfl
      · split
        · cases flags.noOom <;> rfl
        · rw [ofStorage, demand_of (Nat.le_of_eq List.length_replicate.symm), ok_bind, Except.map,
            Option.map_some, ofRegion_zeros]
          rfl

end Runs

/-- What can be counted on in a block that was `first` to begin with. -/
structure Disciplined (ε : Type) (first : Block) (u : InUse Block) : Prop
    extends Sound u.storage where
  len_eq : u.storage.len = first.len
  length_data_eq : u.storage.data.length = first.data.length
  contents_eq : (u.storage.contents : Run ε _) = .ok (u.storage.data.take u.storage.len.toNat)
  /-- The difference of the words never goes below nothing. -/
  remaining_eq : (u.storage.remaining : Run ε _) = .ok (u.storage.len - u.storage.cursor)
  /-- A request is met just if it fits in what remains, whatever word it is; otherwise the
  block is as it was. -/
  bump_eq : ∀ n, (u.storage.bump n : Run ε _) =
    .ok (if n ≤ u.storage.len - u.storage.cursor then
      (some ⟨u.storage.cursor.toNat, n.toNat⟩, { u.storage with cursor := u.storage.cursor + n })
    else (none, u.storage))
  /-- The cursor moves to the next boundary just if that is within the block; otherwise the
  block is as it was. -/
  alignCursor_eq : ∀ a, (u.storage.alignCursor a : Run ε _) =
    .ok (if a.pad u.storage.cursor.toNat ≤ u.storage.len.toNat then
      (some (UInt64.ofNat (a.pad u.storage.cursor.toNat)),
        { u.storage with cursor := UInt64.ofNat (a.pad u.storage.cursor.toNat) })
    else (none, u.storage))
  /-- No two pieces of a round share a byte. -/
  pairwise_apart : ∀ round ∈ u.rounds, round.Pairwise Piece.Apart
  stop_le_len : ∀ p ∈ u.pieces, p.stop ≤ u.storage.len.toNat
  /-- What was never handed out is zero. -/
  getElem?_eq_zero : ∀ i < u.storage.data.length, (∀ p ∈ u.pieces, ¬p.Has i) →
    u.storage.data[i]? = some 0

section Discipline

variable {r first : Region} {u : InUse Region}

/-- Where a region of zeros was not written to, there is zero, and so is the storage behind
it. -/
theorem getElem?_data_ofRegion {i : Nat} (hi : i < (ofRegion r).data.length)
    (hzero : i < r.length → r.bytes[i]? = some 0) : (ofRegion r).data[i]? = some 0 := by
  unfold ofRegion at hi ⊢
  by_cases hlt : i < r.length
  · rw [List.getElem?_append_left (by rwa [Region.length_bytes]), hzero hlt]
  · rw [List.length_append, List.length_replicate, Region.length_bytes] at hi
    rw [List.getElem?_append_right (by rw [Region.length_bytes]; omega), Region.length_bytes,
      List.getElem?_replicate, if_pos (by omega)]

theorem disciplined_of_accounted (hu : u.Accounted first) (h : first.Fresh) :
    Disciplined ε (ofRegion first) (u.map ofRegion) := by
  have hheld := hu.held h.toHeld
  have hsound := sound_ofRegion hheld
  have hlen : (ofRegion u.storage).len.toNat = first.length :=
    (toNat_len_ofRegion hheld).trans hu.length_eq
  refine { hsound with
    len_eq := congrArg UInt64.ofNat hu.length_eq
    length_data_eq := ?_
    contents_eq := hsound.contents_eq
    remaining_eq := hsound.remaining_eq
    bump_eq := hsound.bump_eq
    alignCursor_eq := hsound.alignCursor_eq
    pairwise_apart := fun round hround => (hu.pairwise_le round hround).imp Piece.apart_of_le
    stop_le_len := fun p hp => Nat.le_trans (hu.stop_le_length p hp) (Nat.le_of_eq hlen.symm)
    getElem?_eq_zero := fun i hi hout => getElem?_data_ofRegion hi fun hlt => ?_ }
  · exact (length_data_ofRegion hheld).trans
      (hu.backing_eq.trans (length_data_ofRegion h.toHeld).symm)
  · rw [hu.getElem?_eq i hout, h.bytes_eq, List.getElem?_replicate, if_pos (hu.length_eq ▸ hlt)]

/-- **Blocks are handed out in an orderly way**: a block comes about as its region does, and
whatever is done to it, it does what the region does and nothing breaks off.  Its lengths stay
and its cursor keeps inside, a request is met just if it fits, the pieces of a round are apart
from each other and inside the block, and what is in no piece is still zero. -/
theorem run_disciplined (o : Origin) (ops : List Op) :
    make o = lift (o.region?.map (Option.map ofRegion)) ∧
      ∀ first, o.region? = .ok (some first) →
        (run (.start (ofRegion first)) ops : Run ε _) =
            .ok (((InUse.start first).run ops).map ofRegion) ∧
          Disciplined ε (ofRegion first) (((InUse.start first).run ops).map ofRegion) := by
  refine ⟨make_eq o, fun first hfirst => ?_⟩
  have hfresh := Origin.fresh hfirst
  have hstart := InUse.accounted_start first
  exact ⟨run_ofRegion hstart hfresh.toHeld ops,
    disciplined_of_accounted (hstart.run ops) hfresh⟩

/-- A request that wraps around and a boundary past the end are refused, and a piece of the
first round is written through in the second. -/
theorem run_disciplined_twice :
    let o := Origin.requested .standard 10 ⟨false, false⟩
    let first : Block := ⟨List.replicate 10 0, 10, 0⟩
    let ops : List Op := [.bump 3, .write ⟨0, 3⟩ 1 7, .align .int, .bump 0xffffffffffffffff,
      .bump 5, .align .double, .reset, .bump 4, .write ⟨4, 5⟩ 0 9]
    let last : InUse Block :=
      ⟨⟨[0, 7, 0, 0, 9, 0, 0, 0, 0, 0], 10, 4⟩, [⟨0, 4⟩], [[⟨4, 5⟩, ⟨0, 3⟩]]⟩
    o.region? = .ok (some (Region.zeros 10)) ∧ make o = .ok (some first) ∧
      (run (.start first) ops : Run Empty _) = .ok last ∧ Disciplined Empty first last := by
  intro o first ops last
  have hregion : o.region? = .ok (some (Region.zeros 10)) := rfl
  have hfirst : ofRegion (Region.zeros 10) = first := rfl
  have hlast : ((InUse.start (Region.zeros 10)).run ops).map ofRegion = last := rfl
  obtain ⟨hmake, hmade⟩ := run_disciplined (ε := Empty) o ops
  obtain ⟨hrun, hdisciplined⟩ := hmade _ hregion
  rw [hfirst, hlast] at hrun hdisciplined
  refine ⟨hregion, ?_, hrun, hdisciplined⟩
  rw [hmake, hregion, Except.map, Option.map_some, hfirst]
  rfl

end Discipline

end Block

end PackedArray.Machine
