import PackedArray.Error

/-!
# PackedArray.Registry.Status

The status that foreign callers see: zero for success, a negative number for
each class of failure.  Every error has one status.
-/

namespace PackedArray

/-- The outcome of a call across the boundary. -/
inductive Status
  | ok
  /-- The handle was never issued or its array was destroyed. -/
  | invalidHandle
  /-- An argument is missing or out of range. -/
  | invalidArgument
  /-- The caller's buffer is too small. -/
  | bufferTooSmall
  /-- Dimension counts, extents or lower bounds differ. -/
  | shapeMismatch
  /-- The tag names no numeric kind. -/
  | unsupportedType
  /-- A null where none is allowed. -/
  | nullNotAllowed
  /-- A conversion overflowed or underflowed. -/
  | outOfRange
  /-- A zero denominator. -/
  | divisionByZero
  /-- Item count or byte size above the maximum. -/
  | capacityExceeded
  /-- Storage ran out. -/
  | allocationFailed
  /-- A flat form failed validation. -/
  | malformed
  /-- Two arrays differ in element type. -/
  | typeMismatch
  /-- An earlier call broke off and left the arrays out of reach. -/
  | internalError
  /-- This call broke off. -/
  | panicked
  deriving DecidableEq, Repr

/-- The number that stands for a status. -/
def Status.code : Status → Int
  | ok => 0
  | invalidHandle => -1
  | invalidArgument => -2
  | bufferTooSmall => -3
  | shapeMismatch => -4
  | unsupportedType => -5
  | nullNotAllowed => -6
  | outOfRange => -7
  | divisionByZero => -8
  | capacityExceeded => -9
  | allocationFailed => -10
  | malformed => -11
  | typeMismatch => -12
  | internalError => -20
  | panicked => -128

def ScalarError.status : ScalarError → Status
  | unsupportedType _ => .unsupportedType
  | outOfRange _ | floatOverflow | floatUnderflow => .outOfRange

def AllocError.status : AllocError → Status
  | invalidSize _ _ => .capacityExceeded
  | outOfMemory _ => .allocationFailed

def ArrayError.status : ArrayError → Status
  | invalidDimensions _ _ | tooManyDimensions _ _ | elementCountMismatch _ _
  | bufferTooShort _ _ | invalidTypeLength _ | variableByValue => .invalidArgument
  | sizeExceeded _ => .capacityExceeded
  | nullNotAllowed => .nullNotAllowed
  | unsupportedType _ => .unsupportedType
  | elementTypeMismatch _ _ => .typeMismatch
  | malformed _ => .malformed
  | alloc cause => cause.status

def OpError.status : OpError → Status
  | dimensionCountMismatch _ _ | rangeMismatch _ _ _ => .shapeMismatch
  | nullElement => .nullNotAllowed
  | elementTypeMismatch _ _ => .typeMismatch
  | unsupportedType _ => .unsupportedType
  | divisionByZero => .divisionByZero
  | scalar cause => cause.status
  | array cause => cause.status
  | scalarStorage _ => .panicked

end PackedArray
