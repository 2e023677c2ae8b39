import PackedArray.NdArray.Build

/-!
# PackedArray.Workload

Arrays of regular contents, for timing and for samples.  The value of an item
depends on its index alone: it climbs from -12 to 12 in quarters and starts
over.
-/

namespace PackedArray.Workload

/-- Quarters in the value of item `i`. -/
def quarters (i : Nat) : Int := (i % 97 : Nat) - 48

/-- The number one quarter. -/
def quarter : Double := (Double.ofInt 1).div (Double.ofInt 4)

/-- The value of item `i`. -/
def valueAt (i : Nat) : Double := (Double.ofInt (quarters i)).mul quarter

/-- The value of item `i` truncated toward zero. -/
def wholeAt (i : Nat) : Int := (quarters i).tdiv 4

/-- The extent of `n` items. -/
def extent (n : Nat) : Except ArrayError Int32 :=
  if n ≤ maxProduct then .ok (Int32.ofNat n) else .error (.sizeExceeded maxProduct)

/-- An array of these elements with every lower bound one. -/
def build (elems : List Scalar) (nulls : Option (List Bool)) (dims : List Int32) (kind : Kind) :
    Except ArrayError NdArray :=
  NdArray.ofElements elems nulls dims (dims.map fun _ => 1) kind.tag kind.layout

/-- Double-precision scalars for `n` items. -/
def float8Values (n : Nat) : List Scalar := (List.range n).map fun i => Scalar.ofDouble (valueAt i)

/-- A one-dimensional double-precision array of `n` items. -/
def float8 (n : Nat) : Except ArrayError NdArray := do
  build (float8Values n) none [← extent n] .float8

/-- A matrix of four-byte integers. -/
def int4Matrix (rows cols : Nat) : Except ArrayError NdArray := do
  let dims := [← extent rows, ← extent cols]
  build ((List.range (rows * cols)).map fun i => Scalar.ofInt .four (wholeAt i)) none dims
    (.int .four)

/-- A one-dimensional double-precision array whose every `stride`-th item is
null, from the first on; no item for stride zero. -/
def sparse (n stride : Nat) : Except ArrayError NdArray := do
  let nulls := (List.range n).map fun i => decide (0 < stride ∧ i % stride = 0)
  build (float8Values n) (some nulls) [← extent n] .float8

end PackedArray.Workload
