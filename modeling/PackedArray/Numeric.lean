import PackedArray.Scalar
import PackedArray.Error

/-!
# PackedArray.Numeric

Widening scalars to a common number and checked narrowing back.  Operators fold
in double precision (integer division in whole numbers) and narrow the result
to the element type.  Nothing here saturates or wraps.

* `Scalar.widen`, `Scalar.widenInt` — out of a scalar, by its tag;
* `Double.narrow`, `narrowInt` — back into a scalar, with range checks;
* `checkFloat` — the policy that decides when an infinity or a zero is an
  overflow or an underflow.
-/

namespace PackedArray

/-- Refuses an infinity or a zero that the caller does not expect.  Usually an
infinity is expected when an input was infinite, a zero when the exact result
is zero. -/
def checkFloat (v : Double) (infinityOk zeroOk : Bool) : Except ScalarError Unit :=
  if v.isInfinite && !infinityOk then .error .floatOverflow
  else if v.isZero && !zeroOk then .error .floatUnderflow
  else .ok ()

/-! ## widening -/

/-- The number that a scalar of this kind stands for, in double precision. -/
def Scalar.toDouble (x : Scalar) : Kind → Double
  | .int w => Double.ofInt (x.asInt w)
  | .float4 => x.asSingle.toDouble
  | .float8 => x.asDouble

/-- Widen a numeric scalar to double precision. -/
def Scalar.widen (x : Scalar) (tag : Tag) : Except ScalarError Double :=
  tag.kind.map x.toDouble

/-- Widen an integer scalar; floats are refused. -/
def Scalar.widenInt (x : Scalar) (tag : Tag) : Except ScalarError Int :=
  match tag.kind? with
  | some (.int w) => .ok (x.asInt w)
  | _ => .error (.unsupportedType tag)

/-! ## narrowing -/

/-- A scalar of this width, if it holds the number. -/
def IntWidth.narrow (w : IntWidth) (v : Int) : Except ScalarError Scalar :=
  if w.Holds v then .ok (Scalar.ofInt w v) else .error (.outOfRange w.rangeName)

/-- Narrow a whole number to an integer scalar; floats are refused. -/
def narrowInt (v : Int) (tag : Tag) : Except ScalarError Scalar :=
  match tag.kind? with
  | some (.int w) => w.narrow v
  | _ => .error (.unsupportedType tag)

/-- Round to the nearest whole number, a half to the even one, and narrow. -/
def IntWidth.narrowDouble (w : IntWidth) (v : Double) : Except ScalarError Scalar :=
  match v.roundEven? with
  | some n => w.narrow n
  | none => .error (.outOfRange w.rangeName)

/-- Narrow to single precision.  Only an infinity may give an infinity and
only a zero may give a zero. -/
def narrowSingle (v : Double) : Except ScalarError Scalar := do
  let narrowed := v.toSingle
  checkFloat narrowed.toDouble v.isInfinite v.isZero
  return Scalar.ofSingle narrowed

/-- Narrow a double-precision number to a scalar of this kind. -/
def Kind.narrow (v : Double) : Kind → Except ScalarError Scalar
  | .int w => w.narrowDouble v
  | .float4 => narrowSingle v
  | .float8 => .ok (Scalar.ofDouble v)

/-- Narrow a double-precision number to a numeric scalar. -/
def Double.narrow (v : Double) (tag : Tag) : Except ScalarError Scalar := do
  (← tag.kind).narrow v

end PackedArray
