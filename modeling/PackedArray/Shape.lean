import PackedArray.Error
import PackedArray.Storage.Quota

/-!
# PackedArray.Shape

Extents, item counts and the size of the header that they need.

An array of no dimensions has no items.  Otherwise its item count is the
product of its extents, and the count exists only if no extent is negative,
every running product fits a signed 32-bit number, and the whole product is
within the limit on items.

* `itemCount_le` — a count never exceeds the limit;
* `productFrom_append` — running products compose.
-/

namespace PackedArray

/-- The most dimensions that an array can have. -/
def maxDimensions : Nat := 6

/-- Bytes of the fixed part of the header: total length, dimension count,
data offset and tag. -/
def fixedHeaderSize : Nat := 16

/-- The most items that one array can have. -/
def maxItems : Nat := Quota.standard.maxItems

/-- The greatest running product of extents. -/
def maxProduct : Nat := 0x7fffffff

/-- `acc` times the product of the extents, if no extent is negative and no
product on the way is too great. -/
def productFrom (acc : Nat) : List Int32 → Option Nat
  | [] => some acc
  | d :: ds =>
    if d.toInt < 0 then none
    else
      let next := acc * d.toInt.toNat
      if next ≤ maxProduct then productFrom next ds else none

/-- The item count of these extents, if it exists. -/
def itemCount? (dims : List Int32) : Option Nat :=
  if dims.isEmpty then some 0
  else (productFrom 1 dims).filter (· ≤ maxItems)

/-- The item count of these extents. -/
def itemCount (dims : List Int32) : Except ArrayError Nat :=
  match itemCount? dims with
  | some n => .ok n
  | none => .error (.sizeExceeded maxItems)

/-- Header bytes of an array without a null bitmap. -/
def plainHeaderSize (ndim : Nat) : Nat := maxAlign (fixedHeaderSize + 8 * ndim)

/-- Bytes of a null bitmap over `n` items. -/
def bitmapSize (n : Nat) : Nat := (n + 7) / 8

/-- Header bytes of an array whose null bitmap covers `n` items. -/
def nullableHeaderSize (ndim n : Nat) : Nat :=
  maxAlign (fixedHeaderSize + 8 * ndim + bitmapSize n)

/-- Checks the number of dimensions and that each has a lower bound. -/
def checkDimensions (dims lbounds : List Int32) : Except ArrayError Unit :=
  if maxDimensions < dims.length then
    .error (.tooManyDimensions dims.length maxDimensions)
  else if dims.length ≠ lbounds.length then
    .error (.invalidDimensions dims.length lbounds.length)
  else .ok ()

/-- The extent of a one-dimensional array of `n` items. -/
def vectorExtent (n : Nat) : Except ArrayError Int32 :=
  if n ≤ maxProduct then .ok (Int32.ofNat n) else .error (.sizeExceeded maxItems)

/-! ## facts -/

theorem productFrom_append (acc : Nat) (xs ys : List Int32) :
    productFrom acc (xs ++ ys) = (productFrom acc xs).bind (productFrom · ys) := by
  induction xs generalizing acc with
  | nil => rfl
  | cons d ds ih =>
    simp only [List.cons_append, productFrom]
    split
    · rfl
    · split
      · exact ih _
      · rfl

/-- A count never exceeds the limit. -/
theorem itemCount_le {dims : List Int32} {n : Nat} (h : itemCount dims = .ok n) :
    n ≤ maxItems := by
  simp only [itemCount, itemCount?] at h
  split at h
  case h_1 m hm =>
    cases h
    split at hm
    · cases hm; exact Nat.zero_le _
    · obtain ⟨_, hle⟩ := Option.filter_eq_some_iff.mp hm
      simpa using hle
  case h_2 => cases h

end PackedArray
