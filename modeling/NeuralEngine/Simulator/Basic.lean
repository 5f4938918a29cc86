import NeuralEngine.Capability
import NeuralEngine.Params.File
import NeuralEngine.Request
import NeuralEngine.Response
import NeuralEngine.Simulator.Entry
import NeuralEngine.Table.Basic

/-!
# The state of the simulator

A software engine: a table of transactions, an intake shared by all of them, a fixed latency,
and responses that may be deferred. `Options` holds what is chosen when the engine is built; the
state holds what requests and steps change, beside a history for inspection.
-/

namespace NeuralEngine

namespace Simulator

theorem one_ne_zero_tid : (1 : Tid) ≠ 0 := by decide

/-- How the cycles at which deferred responses come due are counted. -/
inductive Clock where
  /-- By words of 64 bits: a sum that does not fit one starts over at zero. -/
  | word
  /-- By natural numbers, for what is said of counters that never overflow. -/
  | unbounded
deriving DecidableEq, Repr

/-- The count of a cycle. -/
def Clock.count : Clock → Nat → Nat
  | word, cycle => cycle % 2 ^ 64
  | unbounded, cycle => cycle

/-- How an engine is built. -/
structure Options where
  /-- The distance between successive transaction identifiers. -/
  tidStride : Tid := 1
  tidStride_ne_zero : tidStride ≠ 0 := by first | exact one_ne_zero_tid | decide
  /-- The number of elements that the queue of a transaction holds. -/
  queueDepth : Nat := 4
  /-- The intake takes an element in every step whose number is a multiple of this. -/
  drainInterval : Nat := 1
  drainInterval_pos : 0 < drainInterval := by first | exact Nat.one_pos | decide
  latency : Nat := 2
  /-- The number of steps by which the answers to opens are deferred, if they are. -/
  tidDelay : Option Nat := none
  /-- The number of steps by which the answers to the reads of a transaction are deferred. -/
  dataDelay : Option (Tid → Nat) := none
  clock : Clock := .word

namespace Options

/-- The options with another stride; a stride of zero counts as one. -/
def withStride (stride : Tid) (o : Options) : Options :=
  if h : stride = 0 then { o with tidStride := 1, tidStride_ne_zero := one_ne_zero_tid }
  else { o with tidStride := stride, tidStride_ne_zero := h }

/-- The options with another drain interval; an interval of zero counts as one. -/
def withDrainInterval (interval : Nat) (o : Options) : Options :=
  { o with drainInterval := max interval 1, drainInterval_pos := by omega }

end Options

/-- A response that is handed out from cycle `due` on. -/
structure Deferred where
  due : Nat
  response : Response
deriving DecidableEq, Repr

/-- Counts of what does not go smoothly. -/
structure Statistics where
  busyResponses : Nat := 0
  notDoneResponses : Nat := 0
  fatalResponses : Nat := 0
  /-- The most transactions held at once. -/
  peakResident : Nat := 0
  /-- The most identifiers produced and not handed out at once. -/
  peakDeferredTids : Nat := 0
deriving DecidableEq, Repr

/-- Why an engine is no longer able to answer. -/
inductive Fault where
  /-- The address space does not fit its field of a response. -/
  | addressSpaceTooWide
  /-- Every transaction identifier that the stride reaches is taken. -/
  | identifiersExhausted
deriving DecidableEq, Repr

end Simulator

open Simulator in
/-- The state of a software engine. Its capability word tells its parameters. -/
structure Simulator where
  params : EngineParams
  capability : Capability
  capability_ofParams : Capability.ofParams params = .ok capability
  options : Options := {}
  table : Option ConfigTable := none
  /-- The active address space. -/
  asid : Option Asid := none
  rows : List Row := []
  nextTid : Tid := 0
  cycle : Nat := 0
  /-- The number of data writes that will be refused as busy. -/
  forcedBusy : Nat := 0
  /-- Responses not handed out yet, in the order of their requests. -/
  deferred : List Deferred := []
  /-- The requests so far, the latest first. -/
  issued : List Request := []
  /-- The deferred responses handed out so far, the latest first. -/
  delivered : List Response := []
  statistics : Statistics := {}
  fault : Option Fault := none

namespace Simulator

/-- An engine with the given parameters. -/
def ofParams (params : EngineParams) : Except ParamError Simulator :=
  match h : Capability.ofParams params with
  | .ok capability => .ok { params, capability, capability_ofParams := h }
  | .error e => .error e

/-- An engine with the parameters of a parameter file. -/
def ofFile (text : String) : Except ParamError Simulator := do
  let params ← (EngineParams.parse text).1
  ofParams params

/-- An engine that holds `k` transactions and has the default parameters otherwise. -/
def withCapacity (k : BitVec 16) : Simulator where
  params := { tableEntries := k.toNat }
  capability := { elementsPerBlock := 4, numPes := 4, cacheEntries := 4, tableEntries := k }
  capability_ofParams := by
    have hk := k.isLt
    simp [Capability.ofParams, Capability.field, EngineParams.get, bind, Except.bind, pure, Except.pure, hk]

/-- The number of transactions that the engine can hold. -/
def capacity (s : Simulator) : Nat :=
  s.params.tableEntries

/-- The transactions held, from the lowest row on. -/
def entries (s : Simulator) : List Entry :=
  Rows.entries s.rows

/-- The number of transactions held. -/
def resident (s : Simulator) : Nat :=
  s.entries.length

/-- The transaction with the given identifier. -/
def find? (tid : Tid) (s : Simulator) : Option Entry :=
  Rows.find? tid s.rows

/-- The requests so far, in order. -/
def history (s : Simulator) : List Request :=
  s.issued.reverse

/-- The deferred responses handed out so far, in order. -/
def deliveries (s : Simulator) : List Response :=
  s.delivered.reverse

/-- The registers of a transaction. -/
def registers? (tid : Tid) (s : Simulator) : Option Registers :=
  (s.find? tid).map (·.registers)

/-- The transaction has finished and its outputs can be read. -/
def isDone (tid : Tid) (s : Simulator) : Bool :=
  ((s.find? tid).map Entry.isDone).getD false

/-- Refuses the next `count` data writes as busy. -/
def forceBusy (count : Nat) (s : Simulator) : Simulator :=
  { s with forcedBusy := s.forcedBusy + count }

/-- Activates an address space. -/
def activate (asid : Asid) (s : Simulator) : Simulator :=
  { s with asid := some asid }

/-- Points the engine at a configuration table. -/
def setTable (table : ConfigTable) (s : Simulator) : Simulator :=
  { s with table := some table }

/-- Lets one step pass: the intake takes an element if it is its turn, then every phase
advances. -/
def tick (s : Simulator) : Simulator :=
  let cycle := s.cycle + 1
  let rows := if cycle % s.options.drainInterval = 0 then Rows.drain s.rows else s.rows
  { s with cycle := cycle, rows := Rows.advance s.options.latency rows }

/-- Lets steps pass until the transaction is done, at most `limit` of them, and counts them. -/
def tickUntilDone (tid : Tid) : Nat → Simulator → Nat × Simulator
  | 0, s => (0, s)
  | limit + 1, s =>
    if s.isDone tid then (0, s)
    else
      let run := tickUntilDone tid limit s.tick
      (run.1 + 1, run.2)

def entryLine (e : Entry) : String :=
  "  tid " ++ toString e.tid.toNat ++ " nnid " ++ toString e.nnid.toNat ++ " " ++ e.phase.describe ++
    " queued " ++ toString e.queue.length ++ " consumed " ++ toString e.taken.length ++
    " outputs " ++ toString e.outputs.length

def Statistics.describe (t : Statistics) : String :=
  "Statistics \x7b busy_responses: " ++ toString t.busyResponses ++ ", not_done_responses: " ++
    toString t.notDoneResponses ++ ", fatal_responses: " ++ toString t.fatalResponses ++
    ", peak_resident: " ++ toString t.peakResident ++ ", peak_deferred_tids: " ++
    toString t.peakDeferredTids ++ " \x7d"

/-- The engine, a line for each thing in it. -/
def describe (s : Simulator) : List String :=
  let asid := match s.asid with
    | some asid => "Some(" ++ toString asid.toNat ++ ")"
    | none => "None"
  ("Fake engine at cycle " ++ toString s.cycle ++ ", asid " ++ asid ++ ":") ::
    s.entries.map entryLine ++
    ["  " ++ toString s.deferred.length ++ " deferred responses undelivered", s.statistics.describe]

end Simulator

end NeuralEngine
