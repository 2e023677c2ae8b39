import PackedArray.Error
import PackedArray.Storage.Region

/-!
# PackedArray.Storage.Quota

Requests for regions, bounded by a ceiling.  A request over the ceiling is
refused whatever its flags say; a request that no address space can hold is
out of memory, or no region when the caller asks to be told that way.

* `Quota.reserve_eq_ok` — a request within the ceiling and the address space
  can be met.
-/

namespace PackedArray

/-- The ceiling on requests. -/
structure Quota where
  /-- Largest single request, in bytes. -/
  maxSize : Nat
  deriving DecidableEq, Repr

/-- Options of one request. -/
structure AllocFlags where
  /-- Answer exhaustion with no region instead of an error. -/
  noOom : Bool
  /-- Ask for zeros; every region has them. -/
  zero : Bool
  deriving DecidableEq, Repr

/-- The flags in a word; bits without a meaning are dropped. -/
def AllocFlags.ofBits (bits : Nat) : AllocFlags := ⟨bits.testBit 1, bits.testBit 2⟩

namespace Quota

/-- The quota with the default ceiling, one gibibyte less one. -/
def standard : Quota := ⟨0x3fffffff⟩

/-- Items that an array may have, so that a word for each still fits one
request. -/
def maxItems (q : Quota) : Nat := q.maxSize / 8

/-- Whether a request of this size is within the ceiling. -/
def admits (q : Quota) (size : Nat) : Bool := size ≤ q.maxSize

/-- The largest region that an address space can hold. -/
def addressLimit : Nat := 0x7fffffffffffffff

/-- Whether a request can be met, or why not. -/
def reserve (q : Quota) (size : Nat) : Except AllocError Unit :=
  if !q.admits size then .error (.invalidSize size q.maxSize)
  else if addressLimit < size then .error (.outOfMemory size)
  else .ok ()

/-- Ask for `size` bytes and take exhaustion as an error. -/
def alloc (q : Quota) (size : Nat) : Except AllocError Region :=
  (q.reserve size).map fun _ => Region.zeros size

/-- Ask for `size` bytes; the flags tell whether exhaustion is an error or no
region. -/
def request (q : Quota) (size : Nat) (flags : AllocFlags) :
    Except AllocError (Option Region) :=
  match q.alloc size with
  | .ok region => .ok (some region)
  | .error (.outOfMemory n) => if flags.noOom then .ok none else .error (.outOfMemory n)
  | .error e => .error e

theorem reserve_eq_ok {q : Quota} {size : Nat} (h : size ≤ q.maxSize)
    (hlimit : size ≤ addressLimit) : q.reserve size = .ok () := by
  simp [reserve, admits, h, Nat.not_lt.mpr hlimit]

end Quota

end PackedArray
