/-
  TaskKernel.Signal.State

  Signals of one task: a set of pending signals and a handler for each slot.
  Delivery looks at pending signals in ascending order. Entering a user handler
  parks the interrupted frame until the handler returns; handlers do not nest.
-/
import TaskKernel.Layout
import TaskKernel.Trap.Frame

namespace TaskKernel

/-! ## Handlers -/

/-- The signal that can be neither caught nor ignored. -/
def killSignal : Nat := 9

/-- What delivering a signal does. -/
inductive Handler where
  | ignore
  | terminate
  /-- Calls a user function with the signal number. -/
  | user (entry : VirtAddr)
deriving DecidableEq, Repr

/-- The handler every slot starts with. -/
def Handler.initial (signum : Int) : Handler :=
  if signum = killSignal then .terminate else .ignore

/-- Why a signal request was refused. -/
inductive SignalError where
  /-- The number names no slot. -/
  | invalid (signum : Int)
  | uncatchable
deriving DecidableEq, Repr

def SignalError.code : SignalError → String
  | invalid _ => "Invalid"
  | uncatchable => "Uncatchable"

def SignalError.message : SignalError → String
  | invalid signum => "invalid signal " ++ toString signum
  | uncatchable => "signal cannot be caught"

instance : Reported SignalError := ⟨SignalError.code, SignalError.message⟩

/-- A signal slot; slot 0 is never used. -/
abbrev SignalSlot := Fin Layout.signalSlots

/-- The slot that a signal number names: numbers run from 1 to 31. -/
def signalSlot (signum : Int) : Except SignalError SignalSlot :=
  if h : 0 < signum ∧ signum < Layout.signalSlots then
    .ok ⟨signum.toNat, by omega⟩
  else .error (.invalid signum)

/-! ## State -/

/-- Signal bookkeeping of one task. -/
structure SignalState where
  /-- Bit `n` is set while signal `n` is pending. -/
  pending : BitVec 32
  handlers : Vector Handler Layout.signalSlots
  /-- The frame that a running handler interrupted. -/
  interrupted : Option TrapFrame
  /-- Whether the signal return page is mapped into the task. -/
  trampolineMapped : Bool
deriving DecidableEq, Repr

/-- What delivery decided. -/
inductive Delivery where
  | nothing
  /-- The task must be terminated. -/
  | terminate (signum : Nat)
  /-- The frame now enters the handler. -/
  | handler (signum : Nat)
deriving DecidableEq, Repr

/-- The frame that enters the handler at `entry` for signal `n`: it returns through
    the trampoline and gets an aligned stack below a red zone. -/
def TrapFrame.enterHandler (frame : TrapFrame) (entry : VirtAddr) (n : Nat) : TrapFrame :=
  { (frame.setReg 0 (BitVec.ofNat 64 n)).setReg 30 Layout.trampolineWindow.raw with
    pc := entry.raw
    sp := (frame.sp - 0x100#64) &&& ~~~0xf#64 }

namespace SignalState

/-- Nothing pending, every slot with its first handler. -/
def new : SignalState :=
  ⟨0, Vector.ofFn fun n => Handler.initial n.val, none, false⟩

/-- True while a handler runs. -/
def inHandler (s : SignalState) : Bool := s.interrupted.isSome

/-- The handler of a signal number, if it names a slot. -/
def handler? (s : SignalState) (signum : Int) : Option Handler :=
  match signalSlot signum with
  | .ok n => some s.handlers[n]
  | .error _ => none

/-- Installs a handler and returns the one before. -/
def register (s : SignalState) (signum : Int) (handler : Handler) :
    Except SignalError Handler × SignalState :=
  match signalSlot signum with
  | .error e => (.error e, s)
  | .ok n =>
    if n.val = killSignal then (.error .uncatchable, s)
    else (.ok s.handlers[n], { s with handlers := s.handlers.set n handler })

/-- Makes a signal pending. -/
def post (s : SignalState) (signum : Int) : Except SignalError Unit × SignalState :=
  match signalSlot signum with
  | .error e => (.error e, s)
  | .ok n => (.ok (), { s with pending := s.pending ||| BitVec.twoPow 32 n })

def isPending (s : SignalState) (signum : Int) : Bool :=
  match signalSlot signum with
  | .error _ => false
  | .ok n => s.pending.getLsbD n

/-- The set without signal `n`. -/
def clear (s : SignalState) (n : SignalSlot) : SignalState :=
  { s with pending := s.pending &&& ~~~BitVec.twoPow 32 n }

/-- Clearing a signal takes out that signal and no other. -/
theorem getLsbD_pending_clear (s : SignalState) (n : SignalSlot) (i : Nat) :
    (s.clear n).pending.getLsbD i = (s.pending.getLsbD i && decide (i ≠ n.val)) := by
  by_cases hi : i < 32
  · by_cases h : n.val = i
    · simp [clear, hi, h]
    · simp [clear, hi, Ne.symm h]
  · simp [clear, BitVec.getLsbD_of_ge _ i (Nat.le_of_not_lt hi)]

/-- Consumes the pending signals among `slots`, in this order, up to the first that is
    not ignored. -/
def deliverAmong (s : SignalState) (frame : TrapFrame) :
    List SignalSlot → Delivery × SignalState × TrapFrame
  | [] => (.nothing, s, frame)
  | n :: slots =>
    if s.pending.getLsbD n then
      match s.handlers[n] with
      | .ignore => (s.clear n).deliverAmong frame slots
      | .terminate => (.terminate n, s.clear n, frame)
      | .user entry =>
        (.handler n, { s.clear n with interrupted := some frame }, frame.enterHandler entry n)
    else s.deliverAmong frame slots

/-- Consumes pending signals in ascending order until one needs action; nothing
    happens while a handler runs. -/
def deliver (s : SignalState) (frame : TrapFrame) : Delivery × SignalState × TrapFrame :=
  if s.inHandler then (.nothing, s, frame)
  else s.deliverAmong frame (List.finRange Layout.signalSlots)

/-- Ends a handler: the interrupted frame comes back. Nothing happens outside one. -/
def sigreturn (s : SignalState) (frame : TrapFrame) : Bool × SignalState × TrapFrame :=
  match s.interrupted with
  | none => (false, s, frame)
  | some saved => (true, { s with interrupted := none }, saved)

end SignalState

end TaskKernel
