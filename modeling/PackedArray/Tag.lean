/-!
# PackedArray.Tag

Element type tags.  A tag is any 32-bit number; five of them name numeric
kinds, whose storage and arithmetic this library knows.  Other tags are
carried through unchanged and are refused only where the kind is needed.

* `Tag.kind?_tag`, `Tag.tag_of_kind?` — kinds and their tags determine each
  other.
-/

namespace PackedArray

/-- Identifies the element type of a scalar or an array. -/
structure Tag where
  code : UInt32
  deriving DecidableEq, Repr, Inhabited

/-- Width of a signed integer kind, in bytes. -/
inductive IntWidth
  | two | four | eight
  deriving DecidableEq, Repr

/-- The numeric element kinds. -/
inductive Kind
  | int (width : IntWidth)
  | float4
  | float8
  deriving DecidableEq, Repr

namespace IntWidth

def bytes : IntWidth → Nat
  | two => 2
  | four => 4
  | eight => 8

/-- How many numbers there are of this width. -/
def modulus (w : IntWidth) : Nat := 1 <<< (8 * w.bytes)

@[simp] theorem modulus_two : two.modulus = 0x10000 := rfl

@[simp] theorem modulus_four : four.modulus = 0x100000000 := rfl

@[simp] theorem modulus_eight : eight.modulus = 0x10000000000000000 := rfl

/-- Numbers of this width lie in `[-bound, bound)`. -/
def bound (w : IntWidth) : Int := (w.modulus / 2 : Nat)

/-- Whether a number is representable in this width. -/
def Holds (w : IntWidth) (v : Int) : Prop := -w.bound ≤ v ∧ v < w.bound

instance (w : IntWidth) (v : Int) : Decidable (w.Holds v) :=
  inferInstanceAs (Decidable (_ ∧ _))

/-- The name that a failed narrowing reports. -/
def rangeName : IntWidth → String
  | two => "smallint"
  | four => "integer"
  | eight => "bigint"

end IntWidth

namespace Tag

/-- No type; never valid as an element type. -/
def invalid : Tag := ⟨0⟩
def int2 : Tag := ⟨1⟩
def int4 : Tag := ⟨2⟩
def int8 : Tag := ⟨3⟩
def float4 : Tag := ⟨4⟩
def float8 : Tag := ⟨5⟩
def bool : Tag := ⟨16⟩
def text : Tag := ⟨25⟩

/-- The numeric kind that a tag names, if it names one. -/
def kind? (t : Tag) : Option Kind :=
  if t = int2 then some (.int .two)
  else if t = int4 then some (.int .four)
  else if t = int8 then some (.int .eight)
  else if t = float4 then some .float4
  else if t = float8 then some .float8
  else none

/-- Whether the tag names one of the five numeric kinds. -/
def isNumeric (t : Tag) : Bool := t.kind?.isSome

/-- Whether the tag names an integer kind. -/
def isInteger (t : Tag) : Bool :=
  match t.kind? with
  | some (.int _) => true
  | _ => false

/-- The name used in diagnostics. -/
def typeName (t : Tag) : String :=
  match t.kind? with
  | some (.int .two) => "short"
  | some (.int .four) => "int"
  | some (.int .eight) => "long"
  | some .float4 => "float"
  | some .float8 => "double"
  | none => if t = bool then "bool" else if t = text then "string" else "unknown"

/-- The decimal text of the tag's number. -/
def display (t : Tag) : String := toString t.code.toNat

end Tag

/-- The tag that names a kind. -/
def Kind.tag : Kind → Tag
  | .int .two => Tag.int2
  | .int .four => Tag.int4
  | .int .eight => Tag.int8
  | .float4 => Tag.float4
  | .float8 => Tag.float8

namespace Tag

@[simp] theorem kind?_tag (k : Kind) : k.tag.kind? = some k := by
  match k with
  | .int .two | .int .four | .int .eight | .float4 | .float8 => rfl

theorem tag_of_kind? {t : Tag} {k : Kind} (h : t.kind? = some k) : k.tag = t := by
  unfold kind? at h
  grind [Kind.tag]

end Tag

end PackedArray
