import PackedArray.Bytes
import PackedArray.Layout.Basic

/-!
# PackedArray.Storage.Region

A region of bytes that is filled from the front.  The length is fixed when the
region is made; a cursor advances as pieces of the region are handed out.

The region is kept as two lists that meet at the cursor, so handing out a piece
costs no more than the piece.  `Region.bytes` is the region as one list, and
each operation says what it does to that list:

* `Region.isSome_bump_iff`, `Region.bytes_of_bump` — a piece is handed out
  exactly when it fits in what remains, and nothing is written;
* `Region.write_eq_none_iff`, `Region.alignCursor_eq_none_iff` — when there is no
  room;
* `Region.bytes_of_write` — writing overwrites at the cursor;
* `Region.bytes_of_alignCursor`, `Region.bytes_reset` — moving the cursor writes
  nothing;
* `Region.length_of_write`, `Region.length_of_alignCursor` — the length stays.
-/

namespace PackedArray

/-- A fixed-length region with a cursor. -/
structure Region where
  /-- The bytes before the cursor, the nearest first. -/
  before : List UInt8
  /-- The bytes from the cursor on. -/
  after : List UInt8
  /-- The first byte that is not handed out. -/
  cursor : Nat
  /-- Bytes of storage held, which an empty request still makes one. -/
  backing : Nat
  length_before : before.length = cursor

namespace Region

/-- The contents. -/
def bytes (r : Region) : List UInt8 := r.before.reverseAux r.after

/-- The contents with a cursor at byte `pos`. -/
def ofBytes (bs : List UInt8) (pos backing : Nat) : Region where
  before := (bs.take pos).reverse
  after := bs.drop pos
  cursor := (bs.take pos).length
  backing := backing
  length_before := List.length_reverse

/-- A region that holds no storage at all. -/
def empty : Region := Region.ofBytes [] 0 0

/-- A fresh region of zeros. -/
def zeros (size : Nat) : Region := Region.ofBytes (List.replicate size 0) 0 (max size 1)

/-- Bytes still to be handed out. -/
def remaining (r : Region) : Nat := r.after.length

def length (r : Region) : Nat := r.cursor + r.remaining

/-- Regions are the same when their contents are; storage and cursor do not
count. -/
def sameContents (r₁ r₂ : Region) : Bool := r₁.bytes == r₂.bytes

/-- Move the cursor over as many bytes as `piece` has, leaving `piece` in
their place. -/
def advance (r : Region) (piece : List UInt8) : Region where
  before := piece.reverseAux r.before
  after := r.after.drop piece.length
  cursor := r.cursor + piece.length
  backing := r.backing
  length_before := by
    rw [List.reverseAux_eq, List.length_append, List.length_reverse, r.length_before]
    omega

/-- Hand out the next `n` bytes. -/
def bump (r : Region) (n : Nat) : Option (List UInt8 × Region) :=
  (front? n r.after).map fun piece => (piece, r.advance piece)

/-- Hand out as many bytes as `new` has and write `new` there. -/
def write (r : Region) (new : List UInt8) : Option Region :=
  (front? new.length r.after).map fun _ => r.advance new

/-- Move the cursor to the next boundary, if it lies inside the region. -/
def alignCursor (r : Region) (a : Align) : Option Region :=
  (r.bump (a.pad r.cursor - r.cursor)).map Prod.snd

/-- Replace byte `i`, if it exists; the old byte comes with the new region. -/
def poke (r : Region) (i : Nat) (v : UInt8) : Option (UInt8 × Region) :=
  r.bytes[i]?.map fun old => (old, Region.ofBytes (r.bytes.set i v) r.cursor r.backing)

/-- Start handing out from the front again; the contents stay. -/
def reset (r : Region) : Region := Region.ofBytes r.bytes 0 r.backing

/-! ## contents -/

theorem bytes_eq (r : Region) : r.bytes = r.before.reverse ++ r.after := List.reverseAux_eq

@[simp] theorem length_bytes (r : Region) : r.bytes.length = r.length := by
  simp [bytes_eq, length, remaining, r.length_before]

@[simp] theorem take_bytes (r : Region) : r.bytes.take r.cursor = r.before.reverse := by
  rw [bytes_eq, ← r.length_before, ← List.length_reverse, List.take_left]

@[simp] theorem drop_bytes (r : Region) : r.bytes.drop r.cursor = r.after := by
  rw [bytes_eq, ← r.length_before, ← List.length_reverse, List.drop_left]

theorem cursor_le_length (r : Region) : r.cursor ≤ r.length := Nat.le_add_right _ _

/-- Regions with the same bytes and the same cursor in them are the same. -/
theorem eq_of_bytes_eq {r₁ r₂ : Region} (hbytes : r₁.bytes = r₂.bytes)
    (hcursor : r₁.cursor = r₂.cursor) (hbacking : r₁.backing = r₂.backing) : r₁ = r₂ := by
  have hbefore : r₁.before = r₂.before := by
    rw [← List.reverse_inj, ← take_bytes, ← take_bytes, hbytes, hcursor]
  have hafter : r₁.after = r₂.after := by
    rw [← drop_bytes, ← drop_bytes, hbytes, hcursor]
  cases r₁
  cases r₂
  simp_all

@[simp] theorem bytes_ofBytes (bs : List UInt8) (pos backing : Nat) :
    (Region.ofBytes bs pos backing).bytes = bs := by
  simp [bytes_eq, Region.ofBytes]

@[simp] theorem bytes_zeros (size : Nat) : (zeros size).bytes = List.replicate size 0 :=
  bytes_ofBytes _ _ _

@[simp] theorem length_zeros (size : Nat) : (zeros size).length = size := by
  rw [← length_bytes]; simp

@[simp] theorem bytes_reset (r : Region) : r.reset.bytes = r.bytes := bytes_ofBytes _ _ _

/-- A piece put in place of what was there overwrites at the cursor. -/
theorem bytes_advance (r : Region) (piece : List UInt8) :
    (r.advance piece).bytes = overwrite r.bytes r.cursor piece := by
  rw [overwrite, take_bytes, ← List.drop_drop, drop_bytes]
  simp [bytes_eq, advance, List.reverseAux_eq]

/-! ## handing out -/

/-- A piece is handed out exactly when it fits in what remains. -/
theorem isSome_bump_iff {r : Region} {n : Nat} : (r.bump n).isSome ↔ n ≤ r.remaining := by
  rw [bump, Option.isSome_map, remaining, Option.isSome_iff_exists]
  simp [front?_eq_some_iff]

/-- Bytes are written exactly when they fit in what remains. -/
theorem write_eq_none_iff {r : Region} {new : List UInt8} :
    r.write new = none ↔ r.length < r.cursor + new.length := by
  rw [write, Option.map_eq_none_iff, front?_eq_none_iff, length, remaining]
  omega

/-- The cursor is aligned exactly when the boundary lies inside the region. -/
theorem alignCursor_eq_none_iff {r : Region} {a : Align} :
    r.alignCursor a = none ↔ r.length < a.pad r.cursor := by
  have hle := a.le_pad r.cursor
  rw [alignCursor, bump, Option.map_eq_none_iff, Option.map_eq_none_iff, front?_eq_none_iff,
    length, remaining]
  omega

/-- Handing out writes nothing and moves the cursor by the size of the
piece. -/
theorem bytes_of_bump {r next : Region} {n : Nat} {piece : List UInt8}
    (h : r.bump n = some (piece, next)) :
    next.bytes = r.bytes ∧ next.cursor = r.cursor + n ∧ next.backing = r.backing := by
  simp only [bump, Option.map_eq_some_iff, Prod.mk.injEq] at h
  obtain ⟨s, hs, rfl, rfl⟩ := h
  obtain ⟨hle, hs⟩ := front?_eq_some_iff.mp hs
  have hlen : s.length = n := by rw [← hs]; simp [hle]
  refine ⟨?_, hlen ▸ rfl, rfl⟩
  rw [bytes_advance, overwrite, take_bytes, ← List.drop_drop, drop_bytes, hlen, bytes_eq, ← hs,
    List.append_assoc, List.take_append_drop]

/-- Writing overwrites at the cursor and moves it. -/
theorem bytes_of_write {r next : Region} {new : List UInt8} (h : r.write new = some next) :
    new.length ≤ r.remaining ∧ next.bytes = overwrite r.bytes r.cursor new ∧
      next.cursor = r.cursor + new.length ∧ next.backing = r.backing := by
  simp only [write, Option.map_eq_some_iff] at h
  obtain ⟨s, hs, rfl⟩ := h
  exact ⟨(front?_eq_some_iff.mp hs).1, bytes_advance r new, rfl, rfl⟩

theorem length_of_write {r next : Region} {new : List UInt8} (h : r.write new = some next) :
    next.length = r.length := by
  obtain ⟨hle, hbytes, -, -⟩ := bytes_of_write h
  have hin : r.cursor + new.length ≤ r.bytes.length := by
    rw [length_bytes, length]
    omega
  rw [← length_bytes, hbytes, length_overwrite hin, length_bytes]

/-- Aligning writes nothing and puts the cursor on the next boundary. -/
theorem bytes_of_alignCursor {r next : Region} {a : Align} (h : r.alignCursor a = some next) :
    next.bytes = r.bytes ∧ next.cursor = a.pad r.cursor ∧ next.backing = r.backing := by
  simp only [alignCursor, Option.map_eq_some_iff] at h
  obtain ⟨⟨piece, next'⟩, hb, rfl⟩ := h
  obtain ⟨hbytes, hcursor, hbacking⟩ := bytes_of_bump hb
  have := a.le_pad r.cursor
  exact ⟨hbytes, by rw [hcursor]; omega, hbacking⟩

theorem length_of_alignCursor {r next : Region} {a : Align} (h : r.alignCursor a = some next) :
    next.length = r.length := by
  rw [← length_bytes, (bytes_of_alignCursor h).1, length_bytes]

end Region

end PackedArray
