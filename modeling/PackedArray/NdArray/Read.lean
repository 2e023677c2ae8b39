import PackedArray.NdArray.Basic

/-!
# PackedArray.NdArray.Read

Reading a whole array back into elements, either with null flags or where
nulls cannot be taken.
-/

namespace PackedArray

/-- The elements and null flags of an array, one of each per item. -/
structure Elements where
  /-- The place of a null holds the inline zero. -/
  elems : List Scalar
  /-- Set for a null. -/
  nulls : List Bool
  deriving DecidableEq, Repr

namespace Elements

/-- Elements and flags of items that may be null. -/
def ofItems (items : List (Option Scalar)) : Elements :=
  ⟨items.map (·.getD Scalar.zero), items.map Option.isNone⟩

def length (e : Elements) : Nat := e.elems.length

end Elements

namespace NdArray

/-- Refuses a tag that is not the array's. -/
def checkTag (a : NdArray) (tag : Tag) : Except ArrayError Unit :=
  if a.tag = tag then .ok () else .error (.elementTypeMismatch tag a.tag)

/-- The scalar of an entry, where a null is an error. -/
def requirePresent : Entry → Except ArrayError Scalar
  | .ok (some x) => .ok x
  | .ok none => .error .nullNotAllowed
  | .error e => .error e

/-- Every item, nulls reported by flag. -/
def toElements (a : NdArray) (tag : Tag) (l : Layout) : Except ArrayError Elements := do
  a.checkTag tag
  let items ← (a.entries l).mapM id
  return Elements.ofItems items

/-- Every item, where a null is an error. -/
def toScalars (a : NdArray) (tag : Tag) (l : Layout) : Except ArrayError (List Scalar) := do
  a.checkTag tag
  (a.entries l).mapM requirePresent

end NdArray

end PackedArray
