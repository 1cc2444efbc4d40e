/-! Faults: the ways in which an operation is refused because its caller broke
the operation's contract. A fault carries its cause; the wording is in one place. -/

namespace BehaviorTree

/-- The cause of a refused operation. -/
inductive Fault where
  /-- An index or a byte range lies outside of its array. -/
  | outOfRange
  /-- A scalar is stored in or read from a slot of another size. -/
  | slotSize
  /-- A counter of fixed width cannot be increased any further. -/
  | overflow
  /-- The operands of an expression lead back to it. -/
  | circularExpression
  /-- A wire runs through sub-graph boundaries for ever. -/
  | circularWire
  /-- Memory of this size cannot be addressed. -/
  | tooLarge
  | scalarTooLong (size : Nat)
  | unknownOutput
  | resultSize
  | boolArithmetic
  | emptyBlock
  | primaryExists
  | missingOwner
  | abortedPrimary
  | abortedMissing (lane : Nat)
  | laneOverflow (lane : Nat)
  | firstLaneOffset
  | laneOrder (lane : Nat)
  | laneOwner (lane owner : Nat)
  | primaryCount
  | primaryOwned
  | emptyLane (lane : Nat)
  | runaway (maxCycles : Nat)
  | componentCount
  | componentType (name : String)
  | componentSize (name : String) (needed present : Nat)
  | lookupCount (needed present : Nat)
  | lookupType (name : String)
  | lookupSize (name : String) (needed present : Nat)
  | blackboardSize (needed present : Nat)
  | tooManyNodes
  | tooManyExpressions
  | flowAsValue (port : String)
  | sectionTooLarge
  | typeNameTooLong
  deriving DecidableEq, Repr

namespace Fault

/-- The report of a fault, where it has one of its own. -/
def message? : Fault → Option String
  | outOfRange | slotSize | overflow | circularExpression | circularWire | tooLarge => none
  | scalarTooLong size => s!"scalar of {size} bytes"
  | unknownOutput => "expression nodes have a single output"
  | resultSize => "destination size does not match expression result size"
  | boolArithmetic => "arithmetic on bool operands"
  | emptyBlock => "lane block size must be positive"
  | primaryExists => "primary lane already exists"
  | missingOwner => "spawning from missing lane"
  | abortedPrimary => "the primary lane cannot be aborted"
  | abortedMissing lane => s!"aborting missing lane {lane}"
  | laneOverflow lane => s!"lane {lane} overflows into its successor"
  | firstLaneOffset => "first lane must start at 0"
  | laneOrder lane => s!"lane {lane} starts before its predecessor"
  | laneOwner lane owner => s!"lane {lane} is owned by later lane {owner}"
  | primaryCount => "exactly one primary lane expected"
  | primaryOwned => "lane 0 must be primary"
  | emptyLane lane => s!"lane {lane} has no frames"
  | runaway maxCycles => s!"tick exceeded {maxCycles} cycles, the program does not yield"
  | componentCount => "expected one component handle per program type"
  | componentType name => s!"component handle does not match type {name}"
  | componentSize name needed present =>
    s!"component {name} needs {needed} bytes, handle has {present}"
  | lookupCount needed present => s!"expected {needed} lookup handles, got {present}"
  | lookupType name => s!"lookup handle does not match type {name}"
  | lookupSize name needed present => s!"lookup {name} needs {needed} bytes, handle has {present}"
  | blackboardSize needed present => s!"blackboard needs {needed} bytes, has {present}"
  | tooManyNodes => "program exceeds 65535 execution nodes"
  | tooManyExpressions => "program exceeds 65535 expression nodes"
  | flowAsValue port => s!"flow port `{port}` used as a value"
  | sectionTooLarge => "section too large to encode: TryFromIntError(())"
  | typeNameTooLong => "type name too long: TryFromIntError(())"

/-- The report of a fault, of whatever kind. -/
def text (fault : Fault) : String :=
  fault.message?.getD "an operation was refused"

end Fault

end BehaviorTree
