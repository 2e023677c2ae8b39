import PackedArray.Storage.Quota

/-!
# PackedArray.Proofs.Pieces

Pieces that are handed out of a region, and what is written through them.

`Region.InUse` keeps account of the pieces, round by round: a round ends where the region
starts from the front again.  `Region.InUse.Accounted` is what every step keeps
(`Accounted.apply`), and so does every run (`Accounted.run`): the pieces of a round lie one
behind the other, and what is in none of them is as it was.

* `Region.bumped_cases`, `Region.aligned_cases` — a request is met or changes nothing;
* `Region.InUse.Accounted.run` — whatever is done to a region, the account is kept;
* `Region.InUse.storage_run_filling` — `Region.write` can be done by the operations.
-/

namespace PackedArray

/-- A piece of a region, by its first byte and the number of its bytes. -/
structure Piece where
  start : Nat
  size : Nat
  deriving DecidableEq, Repr

namespace Piece

/-- The first byte behind the piece. -/
def stop (p : Piece) : Nat := p.start + p.size

/-- The byte is in the piece. -/
def Has (p : Piece) (i : Nat) : Prop := p.start ≤ i ∧ i < p.stop

/-- No byte is in both pieces. -/
def Apart (p q : Piece) : Prop := ∀ i, p.Has i → ¬q.Has i

theorem apart_of_le {p q : Piece} (h : q.stop ≤ p.start) : p.Apart q := by
  rintro i ⟨hp, -⟩ ⟨-, hq⟩
  omega

end Piece

/-- A request is met with zeros, or fails for its size. -/
theorem Quota.request_eq (q : Quota) (size : Nat) (flags : AllocFlags) :
    q.request size flags =
      if !q.admits size then .error (.invalidSize size q.maxSize)
      else if addressLimit < size then
        if flags.noOom then .ok none else .error (.outOfMemory size)
      else .ok (some (Region.zeros size)) := by
  unfold request alloc reserve
  by_cases hadmits : q.admits size = true
  · by_cases hlimit : addressLimit < size <;> simp [hadmits, hlimit, Except.map]
  · simp [hadmits, Except.map]

namespace Region

variable {r next : Region} {n pos : Nat}

/-! ## the cursor alone -/

/-- Nothing but the cursor has moved. -/
structure Moved (r next : Region) (pos : Nat) : Prop where
  bytes_eq : next.bytes = r.bytes
  cursor_eq : next.cursor = pos
  backing_eq : next.backing = r.backing

theorem Moved.length_eq (h : r.Moved next pos) : next.length = r.length := by
  rw [← length_bytes, h.bytes_eq, length_bytes]

theorem moved_reset (r : Region) : r.Moved r.reset 0 where
  bytes_eq := bytes_reset r
  cursor_eq := rfl
  backing_eq := rfl

/-- Hand out `n` bytes if there are that many: the piece, and the region after it. -/
def bumped (r : Region) (n : Nat) : Option Piece × Region :=
  match r.bump n with
  | some (bytes, next) => (some ⟨r.cursor, bytes.length⟩, next)
  | none => (none, r)

/-- Move the cursor to the next boundary if it lies inside: the boundary, and the region
after it. -/
def aligned (r : Region) (a : Align) : Option Nat × Region :=
  match r.alignCursor a with
  | some next => (some next.cursor, next)
  | none => (none, r)

/-- Replace byte `i`, if it exists. -/
def poked (r : Region) (i : Nat) (v : UInt8) : Region :=
  match r.poke i v with
  | some (_, next) => next
  | none => r

/-- **A request** is met just if it fits in what remains, and changes nothing where it is
not. -/
theorem bumped_cases (r : Region) (n : Nat) :
    (n ≤ r.remaining ∧ ∃ next, r.bumped n = (some ⟨r.cursor, n⟩, next) ∧
        r.Moved next (r.cursor + n)) ∨
      r.remaining < n ∧ r.bumped n = (none, r) := by
  unfold bumped
  cases hbump : r.bump n with
  | none =>
      refine .inr ⟨?_, rfl⟩
      rw [← Nat.not_le, ← isSome_bump_iff, hbump]
      exact Bool.false_ne_true
  | some handed =>
      obtain ⟨bytes, next⟩ := handed
      obtain ⟨hbytes, hcursor, hbacking⟩ := bytes_of_bump hbump
      have hfits : n ≤ r.remaining := isSome_bump_iff.mp (by rw [hbump]; rfl)
      have hlen : bytes.length = n := by
        simp only [bump, Option.map_eq_some_iff, Prod.mk.injEq] at hbump
        obtain ⟨front, hfront, rfl, -⟩ := hbump
        obtain ⟨hle, rfl⟩ := front?_eq_some_iff.mp hfront
        exact List.length_take_of_le hle
      exact .inl ⟨hfits, next, by simp only [hlen], hbytes, hcursor, hbacking⟩

/-- The cursor comes to the next boundary just if that lies inside, and stays where it is
otherwise. -/
theorem aligned_cases (r : Region) (a : Align) :
    (a.pad r.cursor ≤ r.length ∧ ∃ next, r.aligned a = (some (a.pad r.cursor), next) ∧
        r.Moved next (a.pad r.cursor)) ∨
      r.length < a.pad r.cursor ∧ r.aligned a = (none, r) := by
  unfold aligned
  cases halign : r.alignCursor a with
  | none => exact .inr ⟨alignCursor_eq_none_iff.mp halign, rfl⟩
  | some next =>
      obtain ⟨hbytes, hcursor, hbacking⟩ := bytes_of_alignCursor halign
      have hin : a.pad r.cursor ≤ r.length := by
        rw [← Nat.not_lt, ← alignCursor_eq_none_iff, halign]
        exact Option.some_ne_none next
      exact .inl ⟨hin, next, by simp only [hcursor], hbytes, hcursor, hbacking⟩

/-! ## single bytes -/

theorem bytes_poked (r : Region) (i : Nat) (v : UInt8) :
    (r.poked i v).bytes = r.bytes.set i v := by
  unfold poked poke
  cases hold : r.bytes[i]? with
  | none => exact (List.set_eq_of_length_le (List.getElem?_eq_none_iff.mp hold)).symm
  | some old => exact bytes_ofBytes _ _ _

theorem length_poked (r : Region) (i : Nat) (v : UInt8) : (r.poked i v).length = r.length := by
  rw [← length_bytes, bytes_poked, List.length_set, length_bytes]

theorem cursor_poked (r : Region) (i : Nat) (v : UInt8) : (r.poked i v).cursor = r.cursor := by
  unfold poked poke
  cases hold : r.bytes[i]? with
  | none => rfl
  | some old =>
      have hle : r.cursor ≤ (r.bytes.set i v).length := by
        rw [List.length_set, length_bytes]
        exact r.cursor_le_length
      exact List.length_take_of_le hle

theorem backing_poked (r : Region) (i : Nat) (v : UInt8) : (r.poked i v).backing = r.backing := by
  unfold poked poke
  cases r.bytes[i]? <;> rfl

/-! ## where regions come from -/

/-- How a region comes about. -/
inductive Origin
  | empty
  | requested (q : Quota) (size : UInt64) (flags : AllocFlags)

/-- The region, unless the request fails. -/
def Origin.region? : Origin → Except AllocError (Option Region)
  | empty => .ok (some .empty)
  | requested q size flags => q.request size.toNat flags

/-- A region that can be held: it lies in its storage, and is no greater than what an address
space can hold. -/
structure Held (r : Region) : Prop where
  length_le_backing : r.length ≤ r.backing
  length_le_limit : r.length ≤ Quota.addressLimit

/-- A region as it was asked for. -/
structure Fresh (r : Region) : Prop extends Held r where
  bytes_eq : r.bytes = List.replicate r.length 0

theorem fresh_empty : empty.Fresh where
  length_le_backing := Nat.le_refl _
  length_le_limit := Nat.zero_le _
  bytes_eq := rfl

theorem fresh_zeros {size : Nat} (h : size ≤ Quota.addressLimit) : (zeros size).Fresh where
  length_le_backing := by
    rw [length_zeros]
    exact Nat.le_max_left _ _
  length_le_limit := by rwa [length_zeros]
  bytes_eq := by rw [bytes_zeros, length_zeros]

theorem Origin.fresh {o : Origin} (h : o.region? = .ok (some r)) : r.Fresh := by
  cases o with
  | empty =>
      cases h
      exact fresh_empty
  | requested q size flags =>
      rw [region?, Quota.request_eq] at h
      split at h
      · contradiction
      · split at h
        · split at h <;> cases h
        · next hlimit =>
            cases h
            exact fresh_zeros (Nat.le_of_not_lt hlimit)

/-! ## regions in use -/

/-- What can be done to a region.  A request is for as many bytes as a word can tell; a byte
is written through a piece, by its place in the piece. -/
inductive Op
  | bump (n : UInt64)
  | align (a : Align)
  | reset
  | write (p : Piece) (i : Nat) (v : UInt8)

/-- A region, or what holds one, and the pieces that were handed out. -/
structure InUse (α : Type) where
  storage : α
  /-- The pieces of this round, the latest first. -/
  recent : List Piece
  /-- The pieces of each round before. -/
  earlier : List (List Piece)

namespace InUse

variable {α β : Type}

/-- Nothing has been handed out yet. -/
def start (storage : α) : InUse α := ⟨storage, [], []⟩

def map (f : α → β) (u : InUse α) : InUse β := ⟨f u.storage, u.recent, u.earlier⟩

/-- The pieces, by the rounds in which they were handed out. -/
def rounds (u : InUse α) : List (List Piece) := u.recent :: u.earlier

/-- All pieces that were ever handed out. -/
def pieces (u : InUse α) : List Piece := u.rounds.flatten

theorem pieces_map (f : α → β) (u : InUse α) : (u.map f).pieces = u.pieces := rfl

/-- A request was answered. -/
def answered (u : InUse α) (answer : Option Piece × α) : InUse α :=
  ⟨answer.2, answer.1.toList ++ u.recent, u.earlier⟩

/-- Something was done that hands nothing out. -/
def changed (u : InUse α) (next : α) : InUse α := ⟨next, u.recent, u.earlier⟩

/-- A new round begins. -/
def restarted (u : InUse α) (next : α) : InUse α := ⟨next, [], u.rounds⟩

/-- Do one thing.  Any piece that was ever handed out can be written through; where there is
no such piece, or no such byte in it, nothing is written. -/
def apply (u : InUse Region) : Op → InUse Region
  | .bump n => u.answered (u.storage.bumped n.toNat)
  | .align a => u.changed (u.storage.aligned a).2
  | .reset => u.restarted u.storage.reset
  | .write p i v =>
    if p ∈ u.pieces ∧ i < p.size then u.changed (u.storage.poked (p.start + i) v) else u

/-- Do one thing after the other. -/
def run (u : InUse Region) (ops : List Op) : InUse Region := ops.foldl apply u

/-! ## whatever is done -/

/-- The account of a region that was `first` to begin with. -/
structure Accounted (first : Region) (u : InUse Region) : Prop where
  length_eq : u.storage.length = first.length
  backing_eq : u.storage.backing = first.backing
  /-- The pieces of this round lie before the cursor. -/
  stop_le_cursor : ∀ p ∈ u.recent, p.stop ≤ u.storage.cursor
  /-- In every round a piece lies behind those before it. -/
  pairwise_le : ∀ round ∈ u.rounds, round.Pairwise fun p q => q.stop ≤ p.start
  stop_le_length : ∀ p ∈ u.pieces, p.stop ≤ first.length
  /-- What is in no piece has not been written to. -/
  getElem?_eq : ∀ i, (∀ p ∈ u.pieces, ¬p.Has i) → u.storage.bytes[i]? = first.bytes[i]?

variable {first : Region} {u : InUse Region}

theorem Accounted.held (h : Accounted first u) (hfirst : first.Held) : u.storage.Held where
  length_le_backing := by
    rw [h.length_eq, h.backing_eq]
    exact hfirst.length_le_backing
  length_le_limit := by
    rw [h.length_eq]
    exact hfirst.length_le_limit

theorem accounted_start (first : Region) : Accounted first (start first) where
  length_eq := rfl
  backing_eq := rfl
  stop_le_cursor := List.forall_mem_nil _
  pairwise_le := by simp [rounds, start]
  stop_le_length := List.forall_mem_nil _
  getElem?_eq := fun _ _ => rfl

theorem Accounted.forward (h : Accounted first u) (hmoved : u.storage.Moved next pos)
    (hle : u.storage.cursor ≤ pos) : Accounted first (u.changed next) where
  length_eq := hmoved.length_eq.trans h.length_eq
  backing_eq := hmoved.backing_eq.trans h.backing_eq
  stop_le_cursor := fun p hp =>
    Nat.le_trans (h.stop_le_cursor p hp) (hmoved.cursor_eq.symm ▸ hle)
  pairwise_le := h.pairwise_le
  stop_le_length := h.stop_le_length
  getElem?_eq := fun i hi => by
    rw [changed, hmoved.bytes_eq]
    exact h.getElem?_eq i hi

theorem Accounted.bump (h : Accounted first u) (n : Nat) :
    Accounted first (u.answered (u.storage.bumped n)) := by
  obtain ⟨hfits, next, hbumped, hmoved⟩ | ⟨-, hbumped⟩ := u.storage.bumped_cases n
  · have hnext := h.forward hmoved (Nat.le_add_right _ _)
    have hstop : u.storage.cursor + n ≤ first.length := by
      rw [← h.length_eq, Region.length]
      omega
    rw [hbumped]
    refine ⟨hnext.length_eq, hnext.backing_eq, ?_, ?_, ?_, fun i hi => ?_⟩
    · exact List.forall_mem_cons.mpr ⟨Nat.le_of_eq hmoved.cursor_eq.symm, hnext.stop_le_cursor⟩
    · obtain ⟨hrecent, hearlier⟩ := List.forall_mem_cons.mp h.pairwise_le
      exact List.forall_mem_cons.mpr
        ⟨List.pairwise_cons.mpr ⟨h.stop_le_cursor, hrecent⟩, hearlier⟩
    · exact List.forall_mem_cons.mpr ⟨hstop, h.stop_le_length⟩
    · exact hnext.getElem?_eq i fun p hp => hi p (List.mem_cons_of_mem _ hp)
  · rw [hbumped]
    exact h

theorem Accounted.align (h : Accounted first u) (a : Align) :
    Accounted first (u.changed (u.storage.aligned a).2) := by
  obtain ⟨-, next, haligned, hmoved⟩ | ⟨-, haligned⟩ := u.storage.aligned_cases a
  · rw [haligned]
    exact h.forward hmoved (a.le_pad _)
  · rw [haligned]
    exact h

theorem Accounted.reset (h : Accounted first u) :
    Accounted first (u.restarted u.storage.reset) where
  length_eq := (moved_reset u.storage).length_eq.trans h.length_eq
  backing_eq := h.backing_eq
  stop_le_cursor := List.forall_mem_nil _
  pairwise_le := List.forall_mem_cons.mpr ⟨List.Pairwise.nil, h.pairwise_le⟩
  stop_le_length := h.stop_le_length
  getElem?_eq := fun i hi => by
    rw [restarted, bytes_reset]
    exact h.getElem?_eq i hi

theorem Accounted.write (h : Accounted first u) {p : Piece} (hp : p ∈ u.pieces) {i : Nat}
    (hi : i < p.size) (v : UInt8) :
    Accounted first (u.changed (u.storage.poked (p.start + i) v)) where
  length_eq := (length_poked _ _ _).trans h.length_eq
  backing_eq := (backing_poked _ _ _).trans h.backing_eq
  stop_le_cursor := by
    rw [changed, cursor_poked]
    exact h.stop_le_cursor
  pairwise_le := h.pairwise_le
  stop_le_length := h.stop_le_length
  getElem?_eq := fun j hj => by
    -- the byte that was written is in the piece, and byte `j` is not
    have hne : p.start + i ≠ j := by
      rintro rfl
      exact hj p hp ⟨Nat.le_add_right _ _, Nat.add_lt_add_left hi _⟩
    rw [changed, bytes_poked, List.getElem?_set_ne hne]
    exact h.getElem?_eq j hj

/-- **One step** keeps the account. -/
theorem Accounted.apply (h : Accounted first u) (op : Op) : Accounted first (u.apply op) := by
  cases op with
  | bump n => exact h.bump n.toNat
  | align a => exact h.align a
  | reset => exact h.reset
  | write p i v =>
      rw [InUse.apply]
      split
      · next hwrite => exact h.write hwrite.1 hwrite.2 v
      · exact h

/-- **A run keeps** the account. -/
theorem Accounted.run (h : Accounted first u) (ops : List Op) : Accounted first (u.run ops) := by
  induction ops generalizing u with
  | nil => exact h
  | cons op ops ih => exact ih (h.apply op)

/-! ## filling a piece -/

/-- Write bytes through a piece, from its byte `i` on. -/
def writes (p : Piece) (i : Nat) : List UInt8 → List Op
  | [] => []
  | v :: bs => .write p i v :: writes p (i + 1) bs

/-- Ask for a piece at `start` and write all of it. -/
def filling (start : Nat) (new : List UInt8) : List Op :=
  .bump (UInt64.ofNat new.length) :: writes ⟨start, new.length⟩ 0 new

/-- Bytes that are written through a piece overwrite the region there. -/
theorem run_writes {p : Piece} (hp : p ∈ u.pieces) (hin : p.stop ≤ u.storage.length) {i : Nat}
    {bs : List UInt8} (hfits : i + bs.length ≤ p.size) :
    (u.run (writes p i bs)).storage.bytes = overwrite u.storage.bytes (p.start + i) bs ∧
      (u.run (writes p i bs)).storage.cursor = u.storage.cursor ∧
      (u.run (writes p i bs)).storage.backing = u.storage.backing := by
  induction bs generalizing u i with
  | nil => simp [writes, run, overwrite]
  | cons v bs ih =>
      rw [List.length_cons] at hfits
      rw [Piece.stop] at hin
      have happly : u.apply (.write p i v) = u.changed (u.storage.poked (p.start + i) v) :=
        if_pos ⟨hp, by omega⟩
      obtain ⟨hbytes, hcursor, hbacking⟩ :=
        ih (u := u.changed (u.storage.poked (p.start + i) v)) (i := i + 1) hp
          (by rwa [changed, length_poked]) (by omega)
      rw [changed, bytes_poked, ← Nat.add_assoc,
        overwrite_set (by rw [length_bytes]; omega)] at hbytes
      rw [writes, run, List.foldl_cons, happly]
      exact ⟨hbytes, hcursor.trans (cursor_poked _ _ _), hbacking.trans (backing_poked _ _ _)⟩

/-- **Writing** to a region is handing out a piece and writing all of it. -/
theorem storage_run_filling {new : List UInt8} (h : u.storage.Held)
    (hwrite : u.storage.write new = some next) :
    (u.run (filling u.storage.cursor new)).storage = next := by
  obtain ⟨hfits, hbytes, hcursor, hbacking⟩ := bytes_of_write hwrite
  have hroom : u.storage.cursor + new.length ≤ u.storage.length := by
    rw [Region.length]
    omega
  have hlimit : u.storage.length ≤ 0x7fffffffffffffff := h.length_le_limit
  have hsize : (UInt64.ofNat new.length).toNat = new.length :=
    UInt64.toNat_ofNat_of_lt' (Nat.lt_of_le_of_lt (by omega : _ ≤ 0x7fffffffffffffff) (by decide))
  obtain ⟨-, mid, hbumped, hmoved⟩ | ⟨hlarge, -⟩ := u.storage.bumped_cases new.length
  · have happly : u.apply (.bump (UInt64.ofNat new.length)) =
        u.answered (some ⟨u.storage.cursor, new.length⟩, mid) := by
      rw [apply, hsize, hbumped]
    obtain ⟨hbytes', hcursor', hbacking'⟩ :=
      run_writes (u := u.answered (some ⟨u.storage.cursor, new.length⟩, mid)) (i := 0)
        List.mem_cons_self (hmoved.length_eq ▸ hroom) (Nat.le_of_eq (Nat.zero_add new.length))
    rw [run, filling, List.foldl_cons, happly]
    refine eq_of_bytes_eq (hbytes'.trans ?_) (hcursor'.trans (hmoved.cursor_eq.trans hcursor.symm))
      (hbacking'.trans (hmoved.backing_eq.trans hbacking.symm))
    rw [hbytes, answered, hmoved.bytes_eq]
    rfl
  · omega

end InUse

end Region

end PackedArray
