import NeuralEngine.Basic

/-!
# Byte sources

A configuration is read from a source that answers one call after the other: with bytes, with an
interruption or with a failure. A call for at most `limit` bytes leaves the rest of a longer answer
for the next call, an answer without bytes ends the blob, and so does the end of the answers.
`readAll` reads to the end of the blob through a reader, which is a way to make one call; the
reader `readRetrying` makes an interrupted call again, for `read` an interruption is a failure.
-/

namespace NeuralEngine

/-- The answer to one call. -/
inductive ReadEvent where
  | bytes (data : List Byte)
  | interrupted
  | failed
deriving DecidableEq, Repr

/-- Why a call yields no bytes. -/
inductive ReadFault where
  | interrupted
  | failed
deriving DecidableEq, Repr

/-- The answers that a source still has. -/
abbrev ByteSource := List ReadEvent

namespace ByteSource

/-- The number of bytes that the source still holds. -/
def bytesLeft : ByteSource → Nat
  | [] => 0
  | .bytes data :: rest => data.length + bytesLeft rest
  | _ :: rest => bytesLeft rest

/-- The number of calls after which nothing can be left. -/
def callsLeft (source : ByteSource) : Nat :=
  bytesLeft source + source.length

/-- One call for at most `limit` bytes. -/
def read (limit : Nat) : ByteSource → Except ReadFault (List Byte) × ByteSource
  | [] => (.ok [], [])
  | .interrupted :: rest => (.error .interrupted, rest)
  | .failed :: rest => (.error .failed, rest)
  | .bytes data :: rest =>
    if data.length ≤ limit then (.ok data, rest)
    else (.ok (data.take limit), .bytes (data.drop limit) :: rest)

/-- One call for at most `limit` bytes, made again after each interruption. -/
def readRetrying (limit : Nat) : ByteSource → Except ReadFault (List Byte) × ByteSource
  | .interrupted :: rest => readRetrying limit rest
  | source => read limit source

/-- The bytes of at most `calls` calls of the reader, up to the first one without bytes. -/
def readWithin (reader : ByteSource → Except ReadFault (List Byte) × ByteSource) :
    Nat → ByteSource → Except ReadFault (List Byte) × ByteSource
  | 0, source => (.ok [], source)
  | calls + 1, source =>
    match reader source with
    | (.error fault, rest) => (.error fault, rest)
    | (.ok [], rest) => (.ok [], rest)
    | (.ok data, rest) =>
      let more := readWithin reader calls rest
      (more.1.map (data ++ ·), more.2)

/-- The bytes of the blob, and what is left of the source after it. -/
def readAll (reader : ByteSource → Except ReadFault (List Byte) × ByteSource) (source : ByteSource) :
    Except ReadFault (List Byte) × ByteSource :=
  readWithin reader (callsLeft source + 1) source

end ByteSource

/-- What a path names. -/
inductive StoredFile where
  | absent
  | directory
  | regular (data : List Byte)
deriving DecidableEq, Repr

/-- The source that opening a path yields. A directory can be opened but not read. -/
def StoredFile.open? : StoredFile → Option ByteSource
  | absent => none
  | directory => some [.failed]
  | regular data => some [.bytes data]

end NeuralEngine
