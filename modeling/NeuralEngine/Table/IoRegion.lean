import NeuralEngine.Basic

/-!
# I/O regions

Each address space has a status word and two bounded word queues for memory-mapped transfers. A
queue holds at most sixteen words; one that is full hands a pushed word back.
-/

namespace NeuralEngine

/-- The number of words that a queue holds. -/
def ioQueueDepth : Nat := 16

/-- Words waiting for transfer, the oldest first. -/
structure IoQueue where
  words : List Word := []
deriving DecidableEq, Repr

namespace IoQueue

def length (q : IoQueue) : Nat :=
  q.words.length

def isEmpty (q : IoQueue) : Bool :=
  q.words.isEmpty

def isFull (q : IoQueue) : Bool :=
  q.length == ioQueueDepth

/-- Appends a word, or hands it back if the queue is full. -/
def push (word : Word) (q : IoQueue) : Except Word IoQueue :=
  if q.isFull then .error word else .ok ⟨q.words ++ [word]⟩

/-- Takes the oldest word. -/
def pop (q : IoQueue) : Option Word × IoQueue :=
  (q.words.head?, ⟨q.words.tail⟩)

end IoQueue

/-- The transfer state of an address space. -/
structure IoRegion where
  status : Word := 0
  input : IoQueue := {}
  output : IoQueue := {}
deriving DecidableEq, Repr

end NeuralEngine
