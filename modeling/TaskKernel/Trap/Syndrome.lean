/-
  TaskKernel.Trap.Syndrome

  Decoding of the exception syndrome register, and the names of the exception
  vectors.
-/
import TaskKernel.Word

namespace TaskKernel

/-! ## Exception classes -/

/-- Why the processor took an exception. -/
inductive ExceptionClass where
  | unknown
  | trappedWait
  | illegalState
  | systemCall
  | instructionAbortLower
  | instructionAbortSame
  | pcAlignment
  | dataAbortLower
  | dataAbortSame
  | spAlignment
  | systemError
  | breakpoint
deriving DecidableEq, Repr

namespace ExceptionClass

def name : ExceptionClass → String
  | unknown => "Unknown"
  | trappedWait => "TrappedWFI"
  | illegalState => "IllegalState"
  | systemCall => "SVC"
  | instructionAbortLower => "InstrAbortLower"
  | instructionAbortSame => "InstrAbortSame"
  | pcAlignment => "PCAlignment"
  | dataAbortLower => "DataAbortLower"
  | dataAbortSame => "DataAbortSame"
  | spAlignment => "SPAlignment"
  | systemError => "SError"
  | breakpoint => "BRK"

/-- The class in bits 26 to 31 of a syndrome. -/
def ofSyndrome (esr : Word) : ExceptionClass :=
  match (esr.extractLsb' 26 6).toNat with
  | 0b000001 => trappedWait
  | 0b001110 => illegalState
  | 0b010101 => systemCall
  | 0b100000 => instructionAbortLower
  | 0b100001 => instructionAbortSame
  | 0b100010 => pcAlignment
  | 0b100100 => dataAbortLower
  | 0b100101 => dataAbortSame
  | 0b100110 => spAlignment
  | 0b101111 => systemError
  | 0b111100 => breakpoint
  | _ => unknown

/-- True of the four classes that carry a fault status. -/
def isAbort : ExceptionClass → Bool
  | instructionAbortLower | instructionAbortSame | dataAbortLower | dataAbortSame => true
  | _ => false

end ExceptionClass

/-! ## Fault status -/

/-- What went wrong in an abort; the number is the table level. -/
inductive FaultStatus where
  | addressSize (level : Nat)
  | unmapped (level : Nat)
  | accessFlag (level : Nat)
  | permission (level : Nat)
  | alignment
  | other (code : Nat)
deriving DecidableEq, Repr

namespace FaultStatus

def name : FaultStatus → String
  | addressSize _ => "AddressSize"
  | unmapped _ => "Translation"
  | accessFlag _ => "AccessFlag"
  | permission _ => "Permission"
  | alignment => "Alignment"
  | other _ => "Other"

/-- The number that goes with a status: a table level or an unknown code. -/
def detail? : FaultStatus → Option Nat
  | addressSize level | unmapped level | accessFlag level | permission level => some level
  | alignment => none
  | other code => some code

/-- The status in bits 0 to 5 of a syndrome. -/
def ofSyndrome (esr : Word) : FaultStatus :=
  let code := (esr.extractLsb' 0 6).toNat
  let level := code % 4
  match code / 4 with
  | 0 => .addressSize level
  | 1 => .unmapped level
  | 2 => .accessFlag level
  | 3 => .permission level
  | _ => if code = 0b100001 then .alignment else .other code

end FaultStatus

/-! ## Vectors -/

/-- Names of the sixteen exception vectors, in table order. -/
def vectorNames : List String :=
  ["EL1t", "EL1h", "EL0_64", "EL0_32"].flatMap fun source =>
    ["SYNC_", "IRQ_", "FIQ_", "ERROR_"].map (· ++ source)

/-- Name of vector number `kind`. -/
def vectorName (kind : Nat) : String := vectorNames[kind]?.getD "UNKNOWN"

end TaskKernel
