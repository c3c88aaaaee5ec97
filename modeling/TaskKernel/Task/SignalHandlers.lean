/-
  TaskKernel.Task.SignalHandlers

  Installing a signal handler in a task. The first user handler also maps the
  page that handlers return through; if that fails, the handler from before is
  put back.
-/
import TaskKernel.Task.Basic

namespace TaskKernel

/-- Why a handler could not be installed. -/
inductive HandlerError where
  | signal (error : SignalError)
  | map (error : MapError)
deriving DecidableEq, Repr

/-- The handler a user address stands for; zero means ignore. -/
def Handler.ofAddress (addr : Word) : Handler := if addr = 0 then .ignore else .user ⟨addr⟩

/-- The user address of a handler; zero if it is no user function. -/
def Handler.address : Handler → Word
  | user entry => entry.raw
  | _ => 0

def Handler.isUser : Handler → Bool
  | user _ => true
  | _ => false

/-- Installs the handler at a user address, zero meaning ignore, and returns the address
    of the handler before. `trampoline` is the frame of the signal return page. -/
def Task.registerHandler {F : Type} [FrameSource F] (task : Task) (mem : Memory F) (signum : Int)
    (addr : Word) (trampoline : PhysAddr) : Except HandlerError Word × Task × Memory F :=
  let handler := Handler.ofAddress addr
  match task.signals.register signum handler with
  | (.error e, _) => (.error (.signal e), task, mem)
  | (.ok previous, signals) =>
    if handler.isUser && !signals.trampolineMapped then
      match task.space.map mem Layout.trampolineWindow trampoline pageSize .userCodeReadOnly with
      | (.error e, space, mem) =>
        -- Tables made on the way stay with the space.
        match signals.register signum previous with
        | (.error e, signals) => (.error (.signal e), { task with signals, space }, mem)
        | (.ok _, signals) => (.error (.map e), { task with signals, space }, mem)
      | (.ok (), space, mem) =>
        let signals := { signals with trampolineMapped := true }
        (.ok previous.address, { task with signals, space }, mem)
    else (.ok previous.address, { task with signals }, mem)

end TaskKernel
