/-!
# Exit codes

Every response carries a four-bit exit code. Eight codes have a meaning; the others are read as
`unknown`, which is written as 15. Two codes are transient: the identical request may be presented
again. Every other code but `ok` is fatal to the transaction.
-/

namespace NeuralEngine

/-- The outcome of a request. -/
inductive ExitCode where
  | ok
  /-- The input queue is full. -/
  | queueBusy
  /-- The output is not ready. -/
  | notDone
  | badRequest
  | noActiveAddressSpace
  | invalidNetworkId
  | zeroSizeNetwork
  | invalidBlockEncoding
  | unknown
deriving DecidableEq, Repr

namespace ExitCode

def code : ExitCode → Nat
  | ok => 0
  | queueBusy => 1
  | notDone => 2
  | badRequest => 3
  | noActiveAddressSpace => 4
  | invalidNetworkId => 5
  | zeroSizeNetwork => 6
  | invalidBlockEncoding => 7
  | unknown => 15

/-- The exit code that a number stands for. -/
def ofCode : Nat → ExitCode
  | 0 => ok
  | 1 => queueBusy
  | 2 => notDone
  | 3 => badRequest
  | 4 => noActiveAddressSpace
  | 5 => invalidNetworkId
  | 6 => zeroSizeNetwork
  | 7 => invalidBlockEncoding
  | _ => unknown

def name : ExitCode → String
  | ok => "Ok"
  | queueBusy => "QueueBusy"
  | notDone => "NotDone"
  | badRequest => "BadRequest"
  | noActiveAddressSpace => "NoActiveAddressSpace"
  | invalidNetworkId => "InvalidNetworkId"
  | zeroSizeNetwork => "ZeroSizeNetwork"
  | invalidBlockEncoding => "InvalidBlockEncoding"
  | unknown => "Unknown"

/-- The identical request may be presented again. -/
def isTransient : ExitCode → Bool
  | queueBusy | notDone => true
  | _ => false

@[simp] theorem ofCode_code (c : ExitCode) : ofCode c.code = c := by
  cases c <;> rfl

theorem code_lt (c : ExitCode) : c.code < 2 ^ 4 := by
  cases c <;> decide

end ExitCode

end NeuralEngine
