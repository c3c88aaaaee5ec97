/-
  TaskKernel.Device.Uart

  The serial line: divisors for a baud rate, what its flag register says, and the
  bytes it sends and receives.
-/
import TaskKernel.Device.Bus
import TaskKernel.Text

namespace TaskKernel

def uartClock : Nat := 48_000_000

def baudRate : Nat := 115_200

/-- Integer divisor and 64ths for a baud rate; there are none for a rate of zero. -/
def baudDivisors (clock baud : Nat) : Option (Nat × Nat) :=
  if baud = 0 then none
  else
    let divisor := clock * 4 / baud
    some (divisor / 64, divisor % 64)

namespace Uart

/-! ## Registers -/

def base : VirtAddr := Layout.peripheral 0x20_1000

/-- Register that bytes pass through. -/
def dataRegister : VirtAddr := base + 0x00#64

def flagRegister : VirtAddr := base + 0x18#64

def receiverEmpty : BitVec 32 := 1#32 <<< 4

def hasData (bus : Bus) : Bool := bus.read flagRegister &&& receiverEmpty == 0

def receive (bus : Bus) : Byte := UInt8.ofBitVec ((bus.read dataRegister).setWidth 8)

/-- The next `n` bytes from the receiver. -/
def receiveBytes (bus : Bus) (n : Nat) : List Byte := List.replicate n (receive bus)

theorem length_receiveBytes (bus : Bus) (n : Nat) : (receiveBytes bus n).length = n :=
  List.length_replicate

theorem receiveBytes_add (bus : Bus) (m n : Nat) :
    receiveBytes bus (m + n) = receiveBytes bus m ++ receiveBytes bus n :=
  List.replicate_append_replicate.symm

/-! ## Text -/

/-- Bytes sent for a text: each line feed gets a carriage return in front. -/
def textBytes (text : String) : List Byte :=
  (encodeText text).flatMap fun b => if b = 10 then [13, 10] else [b]

end Uart

end TaskKernel
