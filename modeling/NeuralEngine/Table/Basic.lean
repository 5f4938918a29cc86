import NeuralEngine.Table.Config
import NeuralEngine.Table.IoRegion
import NeuralEngine.Table.Source
import NeuralEngine.Table.Words
import NeuralEngine.Text

/-!
# The configuration table

For each address space, the table holds the configurations that the engine may run there. They are
numbered in the order in which they are attached and never removed, and each address space holds a
fixed number of them at most. An attachment first checks that the address space exists and has
room, then reads the configuration. It yields the number of the configuration, or why there is none,
and the table that it leaves behind in either case.
-/

namespace NeuralEngine

/-- The configurations and the transfer state of one address space. -/
structure AddressSpace where
  capacity : Nat
  configs : List NetworkConfig := []
  io : IoRegion := {}
deriving DecidableEq, Repr

namespace AddressSpace

/-- The number of configurations attached. -/
def validCount (s : AddressSpace) : Nat :=
  s.configs.length

def isFull (s : AddressSpace) : Bool :=
  s.validCount == s.capacity

def config? (nnid : Nnid) (s : AddressSpace) : Option NetworkConfig :=
  s.configs[nnid.toNat]?

/-- The address space with one more configuration. -/
def append (config : NetworkConfig) (s : AddressSpace) : AddressSpace :=
  { s with configs := s.configs ++ [config] }

end AddressSpace

/-- Why an attachment is refused. -/
inductive TableError where
  | addressSpaceOutOfRange
  | capacityExceeded
  | sourceUnreadable
  | emptyConfiguration
deriving DecidableEq, Repr

def TableError.message : TableError → String
  | addressSpaceOutOfRange => "AddressSpaceOutOfRange"
  | capacityExceeded => "CapacityExceeded"
  | sourceUnreadable => "SourceUnreadable"
  | emptyConfiguration => "EmptyConfiguration"

/-- The address spaces by number, each with room for `configsPerSpace` configurations. -/
structure ConfigTable where
  spaces : List AddressSpace
  configsPerSpace : Nat
deriving DecidableEq, Repr

namespace ConfigTable

/-- A table of empty address spaces. -/
def empty (spaces configsPerSpace : Nat) : ConfigTable where
  spaces := List.replicate spaces { capacity := configsPerSpace }
  configsPerSpace := configsPerSpace

def space? (asid : Asid) (t : ConfigTable) : Option AddressSpace :=
  t.spaces[asid.toNat]?

def config? (asid : Asid) (nnid : Nnid) (t : ConfigTable) : Option NetworkConfig :=
  (t.space? asid).bind (·.config? nnid)

/-- The number of configurations of an address space; zero if there is no such space. -/
def validCount (asid : Asid) (t : ConfigTable) : Nat :=
  ((t.space? asid).map AddressSpace.validCount).getD 0

/-- The table with one address space changed, if there is such a space. -/
def modifySpace (asid : Asid) (f : AddressSpace → AddressSpace) (t : ConfigTable) : ConfigTable :=
  { t with spaces := t.spaces.modify asid.toNat f }

/-- The address space, if another configuration fits into it. -/
def writable (asid : Asid) (t : ConfigTable) : Except TableError AddressSpace :=
  match t.space? asid with
  | none => .error .addressSpaceOutOfRange
  | some space => if space.isFull then .error .capacityExceeded else .ok space

/-- Appends a configuration to an address space that has room. -/
def appendTo (asid : Asid) (space : AddressSpace) (config : NetworkConfig) (t : ConfigTable) :
    Except TableError Nnid × ConfigTable :=
  (.ok (BitVec.ofNat 32 space.validCount), t.modifySpace asid (AddressSpace.append config))

/-- Attaches a configuration with nothing in it. -/
def attachPlaceholder (asid : Asid) (t : ConfigTable) : Except TableError Nnid × ConfigTable :=
  match t.writable asid with
  | .error e => (.error e, t)
  | .ok space => t.appendTo asid space .placeholder

/-- Attaches the configuration made of the given words. -/
def attachWords (asid : Asid) (words : List Word) (t : ConfigTable) : Except TableError Nnid × ConfigTable :=
  match t.writable asid with
  | .error e => (.error e, t)
  | .ok space =>
    if words.isEmpty then (.error .emptyConfiguration, t)
    else t.appendTo asid space (.ofWords words)

/-- The number of bytes asked for in one call. -/
def chunkBytes : Nat := 256

/-- Attaches the configuration that the reader finds in a source, and gives back what is left of
the source. Nothing is read for an address space without room. -/
def attachFrom (reader : ByteSource → Except ReadFault (List Byte) × ByteSource) (asid : Asid)
    (source : ByteSource) (t : ConfigTable) : (Except TableError Nnid × ConfigTable) × ByteSource :=
  match t.writable asid with
  | .error e => ((.error e, t), source)
  | .ok space =>
    match ByteSource.readAll reader source with
    | (.error _, rest) => ((.error .sourceUnreadable, t), rest)
    | (.ok [], rest) => ((.error .emptyConfiguration, t), rest)
    | (.ok bytes, rest) => (t.appendTo asid space (.ofWords (wordsOfBytes bytes)), rest)

/-- Attaches the configuration in a source whose interruptions are failures. -/
def attachSource (asid : Asid) (source : ByteSource) (t : ConfigTable) :
    (Except TableError Nnid × ConfigTable) × ByteSource :=
  t.attachFrom (ByteSource.read chunkBytes) asid source

/-- Attaches the configuration in a source whose interrupted calls are made again. -/
def attachReader (asid : Asid) (source : ByteSource) (t : ConfigTable) :
    (Except TableError Nnid × ConfigTable) × ByteSource :=
  t.attachFrom (ByteSource.readRetrying chunkBytes) asid source

/-- Attaches the configuration stored in a file. -/
def attachFile (asid : Asid) (file : StoredFile) (t : ConfigTable) : Except TableError Nnid × ConfigTable :=
  match t.writable asid with
  | .error e => (.error e, t)
  | .ok _ =>
    match file.open? with
    | none => (.error .sourceUnreadable, t)
    | some source => (t.attachReader asid source).1

/-- Replaces the status word of an address space. -/
def setStatus (asid : Asid) (status : Word) (t : ConfigTable) : ConfigTable :=
  t.modifySpace asid fun s => { s with io := { s.io with status := status } }

/-- Replaces the input queue of an address space. -/
def setInput (asid : Asid) (queue : IoQueue) (t : ConfigTable) : ConfigTable :=
  t.modifySpace asid fun s => { s with io := { s.io with input := queue } }

/-- Replaces the output queue of an address space. -/
def setOutput (asid : Asid) (queue : IoQueue) (t : ConfigTable) : ConfigTable :=
  t.modifySpace asid fun s => { s with io := { s.io with output := queue } }

/-- The line that describes configuration `nnid`. Where the words are held is not shown. -/
def configLine (nnid : Nat) : NetworkConfig → String
  | .placeholder => "    nnid " ++ toString nnid ++ ": placeholder"
  | config => "    nnid " ++ toString nnid ++ ": " ++ toString config.size ++ " words, " ++
      toString config.elementsPerBlock ++ " elements/block @ HANDLE"

/-- The lines that describe address space `asid`. -/
def spaceLines (asid : Nat) (s : AddressSpace) : List String :=
  let queue (q : IoQueue) := toString q.length ++ "/" ++ toString ioQueueDepth
  ["  asid " ++ toString asid ++ ": " ++ toString s.validCount ++ "/" ++ toString s.capacity ++
      " valid"] ++
    s.configs.mapIdx configLine ++
    ["    io: status " ++ Text.hex s.io.status.toNat ++ " input " ++ queue s.io.input ++
      " output " ++ queue s.io.output]

/-- The table, a line for each thing in it. -/
def describe (t : ConfigTable) : List String :=
  ("Config table: " ++ toString t.spaces.length ++ " address spaces x " ++
      toString t.configsPerSpace ++ " configurations") ::
    (t.spaces.mapIdx spaceLines).flatten

end ConfigTable

end NeuralEngine
