import PackedArray.Tag

/-!
# PackedArray.Layout.Basic

Storage traits of an element type: its width, whether values travel inside
the scalar word, and the boundary that each packed value is padded to.

A build chooses once whether eight-byte integers and floats travel inside the word.
This is the default build, in which neither do: `Kind.layout`, and with it `Tag.layout`
and the makers of scalars, has them by reference.  The builds that pass them by value
are left out.

* `Align.le_pad`, `Align.pad_le`, `Align.pad_lt`, `Align.dvd_pad` — padding gives
  the least multiple of the width that is not below the offset;
* `Align.pad_eq_self` — an offset on the boundary is left alone.
-/

namespace PackedArray

/-- Alignment class of a packed element. -/
inductive Align
  | char | short | int | double
  deriving DecidableEq, Repr

namespace Align

/-- Boundary width in bytes. -/
def width : Align → Nat
  | char => 1
  | short => 2
  | int => 4
  | double => 8

/-- The one-letter code of a class. -/
def code : Align → Char
  | char => 'c'
  | short => 's'
  | int => 'i'
  | double => 'd'

/-- The class of a code; an unknown code means byte alignment. -/
def ofCode (c : Char) : Align :=
  if c = 's' then short else if c = 'i' then int else if c = 'd' then double else char

@[simp] theorem ofCode_code (a : Align) : ofCode a.code = a := by
  cases a <;> rfl

theorem width_pos (a : Align) : 0 < a.width := by
  cases a <;> decide

theorem width_le_eight (a : Align) : a.width ≤ 8 := by
  cases a <;> decide

/-- Round `off` up to the next multiple of the boundary width. -/
def pad (a : Align) (off : Nat) : Nat := (off + (a.width - 1)) / a.width * a.width

theorem le_pad (a : Align) (off : Nat) : off ≤ a.pad off := by
  cases a <;> simp only [pad, width] <;> omega

theorem pad_lt (a : Align) (off : Nat) : a.pad off < off + a.width := by
  cases a <;> simp only [pad, width] <;> omega

theorem dvd_pad (a : Align) (off : Nat) : a.width ∣ a.pad off :=
  Nat.dvd_mul_left _ _

/-- No multiple of the width that is not below the offset is less. -/
theorem pad_le {a : Align} {off m : Nat} (h : off ≤ m) (hdvd : a.width ∣ m) : a.pad off ≤ m := by
  cases a <;> simp only [pad, width] at * <;> omega

theorem pad_eq_self {a : Align} {off : Nat} (h : a.width ∣ off) : a.pad off = off := by
  cases a <;> simp only [pad, width] at * <;> omega

/-- Padding after an aligned start pads the length alone. -/
theorem pad_add {a : Align} {start : Nat} (h : a.width ∣ start) (n : Nat) :
    a.pad (start + n) = start + a.pad n := by
  cases a <;> simp only [pad, width] at * <;> omega

end Align

/-- Round `off` up to the strictest boundary that any element or header
needs. -/
def maxAlign (off : Nat) : Nat := Align.double.pad off

/-- Storage traits of an element type. -/
structure Layout where
  /-- Fixed width in bytes, or `-1` for a variable-length type. -/
  len : Int
  /-- Whether values travel inside the scalar word. -/
  byValue : Bool
  /-- Boundary that each packed value is padded to. -/
  align : Align
  deriving DecidableEq, Repr

namespace Layout

/-- A one-byte boolean. -/
def bool : Layout := ⟨1, true, .char⟩

/-- Variable-length text. -/
def text : Layout := ⟨-1, false, .int⟩

/-- Whether elements carry their own length. -/
def isVariable (l : Layout) : Bool := l.len == -1

theorem isVariable_eq_false {l : Layout} (h : 0 < l.len) : l.isVariable = false := by
  rw [isVariable, beq_eq_false_iff_ne]
  omega

end Layout

/-- The storage traits of a numeric kind.  Eight-byte values and floats are
held by reference. -/
def Kind.layout : Kind → Layout
  | .int .two => ⟨2, true, .short⟩
  | .int .four => ⟨4, true, .int⟩
  | .int .eight => ⟨8, false, .double⟩
  | .float4 => ⟨4, false, .int⟩
  | .float8 => ⟨8, false, .double⟩

/-- The storage traits of a tag in the table of numeric kinds. -/
def Tag.layout? (t : Tag) : Option Layout := t.kind?.map Kind.layout

end PackedArray
