import NeuralEngine.Proofs.Scheduler.Turn

/-!
# The protocol of a transaction

What passes between the scheduler and its channel on behalf of one transaction is a word of
exchanges. `Script` gives the words of the whole protocol: the open, the register writes, the data
writes with the copies that were refused as busy, the questions whether the transaction has
finished, and the reads. `Said` tells how far a word has come, and `Said.follows` that every such word
is the beginning of a whole one.
-/

namespace NeuralEngine

/-- What passes on behalf of a transaction: a request with its answer, or the question whether the
transaction has finished. -/
inductive Exchange where
  | request (request : Request) (answer : Response)
  | question (tid : Tid) (done : Bool)
deriving DecidableEq, Repr

/-- The requests are presented in order and accepted, each after any number of identical copies that
were answered with the code `again`. -/
inductive Taken (again : Option ExitCode) : List Request → List Exchange → Prop where
  | nil : Taken again [] []
  | again {request : Request} {requests : List Request} {word : List Exchange} {answer : Response}
      (code : again = some answer.exitCode) (rest : Taken again (request :: requests) word) :
      Taken again (request :: requests) (.request request answer :: word)
  | accepted {request : Request} {requests : List Request} {word : List Exchange} {answer : Response}
      (ok : answer.exitCode = .ok) (rest : Taken again requests word) :
      Taken again (request :: requests) (.request request answer :: word)

namespace Taken

variable {again : Option ExitCode} {requests rest : List Request} {request : Request}
  {word tail : List Exchange} {answer : Response}

theorem append (h : Taken again requests word) (ht : Taken again rest tail) :
    Taken again (requests ++ rest) (word ++ tail) := by
  induction h with
  | nil => exact ht
  | again code _ ih => exact .again code ih
  | accepted ok _ ih => exact .accepted ok ih

/-- Every list of requests can be accepted at once. -/
theorem all (again : Option ExitCode) (requests : List Request) : ∃ word, Taken again requests word := by
  induction requests with
  | nil => exact ⟨[], .nil⟩
  | cons request requests ih =>
    obtain ⟨word, h⟩ := ih
    exact ⟨.request request (.status .ok) :: word, .accepted rfl h⟩

theorem snoc (h : Taken again requests word) (ok : answer.exitCode = .ok) :
    Taken again (requests ++ [request]) (word ++ [.request request answer]) :=
  h.append (.accepted ok .nil)

end Taken

/-- Copies of one request, all answered with the code `again`. -/
def Tried (again : ExitCode) (request : Request) (word : List Exchange) : Prop :=
  ∀ e ∈ word, ∃ answer, e = .request request answer ∧ answer.exitCode = again

theorem Tried.taken {again : ExitCode} {request : Request} {requests : List Request}
    {word tail : List Exchange} (h : Tried again request word)
    (ht : Taken (some again) (request :: requests) tail) :
    Taken (some again) (request :: requests) (word ++ tail) := by
  induction word with
  | nil => exact ht
  | cons e word ih =>
    obtain ⟨answer, rfl, hcode⟩ := h e List.mem_cons_self
    exact .again (by rw [hcode]) (ih fun e he => h e (List.mem_cons_of_mem _ he))

theorem Tried.snoc {again : ExitCode} {request : Request} {word : List Exchange} {answer : Response}
    (h : Tried again request word) (hcode : answer.exitCode = again) :
    Tried again request (word ++ [.request request answer]) := by
  intro e he
  obtain he | he := List.mem_append.1 he
  · exact h e he
  · exact ⟨answer, List.mem_singleton.1 he, hcode⟩

namespace Transaction

/-- The register writes of a transaction, in order. -/
def registerWrites (tid : Tid) (x : Transaction) : List Request :=
  x.registers.map fun entry => .setRegister tid entry.1 entry.2

/-- The data writes of a transaction, in order; the last one is marked. -/
def dataWrites (tid : Tid) (x : Transaction) : List Request :=
  x.stream.toList.mapIdx fun j value => .writeData tid value (j + 1 == x.stream.size)

@[simp] theorem length_registerWrites (tid : Tid) (x : Transaction) :
    (x.registerWrites tid).length = x.registers.length :=
  List.length_map _

@[simp] theorem length_dataWrites (tid : Tid) (x : Transaction) :
    (x.dataWrites tid).length = x.stream.size := by
  simp [dataWrites]

theorem getElem?_registerWrites {tid : Tid} {x : Transaction} {k : Nat} {register : Register}
    {value : RegisterValue} (h : x.registers[k]? = some (register, value)) :
    (x.registerWrites tid)[k]? = some (.setRegister tid register value) := by
  simp [registerWrites, h]

theorem getElem?_dataWrites (tid : Tid) {x : Transaction} {j : Nat} {value : Element}
    (h : x.stream[j]? = some value) :
    (x.dataWrites tid)[j]? = some (.writeData tid value (j + 1 == x.stream.size)) := by
  simp [dataWrites, h]

end Transaction

theorem take_succ_of_getElem? {α : Type} {l : List α} {k : Nat} {a : α} (h : l[k]? = some a) :
    l.take (k + 1) = l.take k ++ [a] := by
  rw [List.take_add_one, h, Option.toList_some]

/-- The open of a transaction and all its writes, accepted in order. -/
inductive Written (x : Transaction) (tid : Tid) : List Exchange → Prop where
  | intro {opened : Response} {registers elements : List Exchange} (ok : opened.exitCode = .ok)
      (registers_taken : Taken none (x.registerWrites tid) registers)
      (elements_taken : Taken (some .queueBusy) (x.dataWrites tid) elements) :
      Written x tid (.request x.opening opened :: (registers ++ elements))

/-- A read with an answer that it tolerates. -/
def IsRead (tid : Tid) (e : Exchange) : Prop :=
  ∃ answer, e = .request (.readData tid) answer ∧
    (answer.exitCode = .ok ∨ answer.exitCode = .notDone)

/-- The request was answered with `ok`. -/
def Exchange.isAccepted : Exchange → Bool
  | request _ answer => answer.exitCode == .ok
  | question _ _ => false

/-- The whole protocol of a transaction under an identifier. -/
inductive Script (x : Transaction) (tid : Tid) : List Exchange → Prop where
  | intro {written waits reads : List Exchange} (written_ok : Written x tid written)
      (waits_ok : ∀ e ∈ waits, e = .question tid false) (reads_ok : ∀ e ∈ reads, IsRead tid e)
      (reads_le : reads.countP Exchange.isAccepted ≤ x.outputCount) :
      Script x tid (written ++ waits ++ .question tid true :: reads)

/-- The word is the beginning of a whole protocol. -/
def Follows (x : Transaction) (tid : Tid) (word : List Exchange) : Prop :=
  ∃ whole, Script x tid whole ∧ word <+: whole

/-- How far a transaction has come. -/
inductive Progress where
  | silent
  | opened
  | writing (registers elements : Nat)
  | executing
  | reading (reads : Nat)
deriving DecidableEq, Repr

/-- What has been said on behalf of a transaction that has come so far. -/
inductive Said (x : Transaction) (tid : Tid) : Progress → List Exchange → Prop where
  | silent : Said x tid .silent []
  | opened {opened : Response} (ok : opened.exitCode = .ok) :
      Said x tid .opened [.request x.opening opened]
  | registers {opened : Response} {k : Nat} {registers : List Exchange} (ok : opened.exitCode = .ok)
      (taken : Taken none ((x.registerWrites tid).take k) registers) :
      Said x tid (.writing k 0) (.request x.opening opened :: registers)
  | elements {opened : Response} {j : Nat} {request : Request}
      {registers elements tries : List Exchange} (ok : opened.exitCode = .ok)
      (registers_taken : Taken none (x.registerWrites tid) registers)
      (elements_taken : Taken (some .queueBusy) ((x.dataWrites tid).take j) elements)
      (next : (x.dataWrites tid)[j]? = some request) (tried : Tried .queueBusy request tries) :
      Said x tid (.writing x.registers.length j)
        (.request x.opening opened :: (registers ++ (elements ++ tries)))
  | executing {written waits : List Exchange} (written_ok : Written x tid written)
      (waits_ok : ∀ e ∈ waits, e = .question tid false) : Said x tid .executing (written ++ waits)
  | reading {written waits reads : List Exchange} (written_ok : Written x tid written)
      (waits_ok : ∀ e ∈ waits, e = .question tid false) (reads_ok : ∀ e ∈ reads, IsRead tid e)
      (reads_le : reads.countP Exchange.isAccepted ≤ x.outputCount) :
      Said x tid (.reading (reads.countP Exchange.isAccepted))
        (written ++ waits ++ .question tid true :: reads)

theorem Script.unread {x : Transaction} {tid : Tid} {written waits : List Exchange}
    (h : Written x tid written) (hw : ∀ e ∈ waits, e = .question tid false) :
    Script x tid (written ++ waits ++ [.question tid true]) :=
  .intro h hw (fun _ he => absurd he List.not_mem_nil) (Nat.zero_le _)

theorem Written.follows {x : Transaction} {tid : Tid} {written : List Exchange}
    (h : Written x tid written) : Follows x tid written := by
  have hwaits : ∀ e ∈ ([] : List Exchange), e = .question tid false := fun _ he =>
    absurd he List.not_mem_nil
  refine ⟨_, .unread h hwaits, ?_⟩
  rw [List.append_assoc]
  exact List.prefix_append ..

theorem Follows.of_prefix {x : Transaction} {tid : Tid} {word word' : List Exchange}
    (h : Follows x tid word') (hp : word <+: word') : Follows x tid word := by
  obtain ⟨whole, hwhole, hprefix⟩ := h
  exact ⟨whole, hwhole, hp.trans hprefix⟩

/-- Whatever was said so far is the beginning of a whole protocol. -/
theorem Said.follows {x : Transaction} {tid : Tid} {p : Progress} {word : List Exchange}
    (h : Said x tid p word) : Follows x tid word := by
  obtain ⟨registers, hregisters⟩ := Taken.all none (x.registerWrites tid)
  obtain ⟨elements, helements⟩ := Taken.all (some .queueBusy) (x.dataWrites tid)
  cases h with
  | silent =>
    have hopened : (Response.status .ok).exitCode = .ok := rfl
    exact (Written.intro hopened hregisters helements).follows.of_prefix List.nil_prefix
  | opened ok => exact (Written.intro ok hregisters helements).follows.of_prefix (by simp)
  | @registers _ k taken ok hk =>
    obtain ⟨more, hmore⟩ := Taken.all none ((x.registerWrites tid).drop k)
    have hall := hk.append hmore
    rw [List.take_append_drop] at hall
    refine (Written.intro ok hall helements).follows.of_prefix ?_
    rw [List.append_assoc]
    exact List.prefix_append (.request x.opening _ :: taken) _
  | @elements _ j request registers taken tries ok hr he next tried =>
    obtain ⟨more, hmore⟩ := Taken.all (some .queueBusy) ((x.dataWrites tid).drop j)
    obtain ⟨hj, hget⟩ := List.getElem?_eq_some_iff.1 next
    rw [List.drop_eq_getElem_cons hj, hget] at hmore
    have hall := he.append (tried.taken hmore)
    rw [← hget, ← List.drop_eq_getElem_cons hj, List.take_append_drop] at hall
    refine (Written.intro ok hr hall).follows.of_prefix ?_
    simp only [List.cons_prefix_cons, true_and, List.prefix_append_right_inj]
    exact List.prefix_append ..
  | executing written waits => exact ⟨_, .unread written waits, List.prefix_append ..⟩
  | reading written waits reads le => exact ⟨_, .intro written waits reads le, List.prefix_rfl⟩

/-! ## How far a word has come after one more exchange -/

namespace Said

variable {x : Transaction} {tid : Tid} {word : List Exchange} {answer : Response}

theorem openingTaken (h : Said x tid .silent word) (ok : answer.exitCode = .ok) :
    Said x tid .opened (word ++ [.request x.opening answer]) := by
  cases h
  exact .opened ok

/-- The identifier arrives. -/
theorem start {other : Tid} (h : Said x other .opened word) : Said x tid (.writing 0 0) word := by
  cases h with
  | opened ok => exact .registers ok .nil

/-- While registers are left, no element was written. -/
theorem registers_of_lt {k j : Nat} (h : Said x tid (.writing k j) word) (hk : k < x.registers.length) :
    ∃ opened registers, word = .request x.opening opened :: registers ∧ opened.exitCode = .ok ∧
      Taken none ((x.registerWrites tid).take k) registers ∧ j = 0 := by
  cases h with
  | registers ok taken => exact ⟨_, _, rfl, ok, taken, rfl⟩
  | elements => exact absurd hk (Nat.lt_irrefl _)

/-- Once no register is left, elements are written. -/
theorem elements_of_le {k j : Nat} (h : Said x tid (.writing k j) word) (hk : x.registers.length ≤ k) :
    ∃ opened registers elements tries,
      word = .request x.opening opened :: (registers ++ (elements ++ tries)) ∧ opened.exitCode = .ok ∧
      Taken none (x.registerWrites tid) registers ∧
      Taken (some .queueBusy) ((x.dataWrites tid).take j) elements ∧
      ∀ request, (x.dataWrites tid)[j]? = some request → Tried .queueBusy request tries := by
  cases h with
  | @registers opened k taken ok hr =>
    rw [List.take_of_length_le (by simpa using hk)] at hr
    exact ⟨_, taken, [], [], by simp, ok, hr, .nil, fun _ _ _ he => absurd he List.not_mem_nil⟩
  | @elements opened j request taken elements tries ok hr he next tried =>
    refine ⟨_, _, _, _, rfl, ok, hr, he, fun other hother => ?_⟩
    rw [next] at hother
    rwa [← Option.some.inj hother]

theorem register {k j : Nat} {register : Register} {value : RegisterValue}
    (h : Said x tid (.writing k j) word) (entry : x.registers[k]? = some (register, value))
    (ok : answer.exitCode = .ok) :
    Said x tid (.writing (k + 1) j) (word ++ [.request (.setRegister tid register value) answer]) := by
  have hk : k < x.registers.length := (List.getElem?_eq_some_iff.1 entry).1
  obtain ⟨opened, taken, rfl, hopened, hr, rfl⟩ := h.registers_of_lt hk
  refine .registers hopened ?_
  rw [take_succ_of_getElem? (Transaction.getElem?_registerWrites entry)]
  exact hr.snoc ok

/-- An element is accepted after its copies that were refused as busy. -/
theorem take_element {k j : Nat} {value : Element} (h : Said x tid (.writing k j) word)
    (written : x.registers[k]? = none) (entry : x.stream[j]? = some value)
    (ok : answer.exitCode = .ok) :
    ∃ opened registers elements,
      word ++ [.request (.writeData tid value (j + 1 == x.stream.size)) answer] =
        .request x.opening opened :: (registers ++ elements) ∧ opened.exitCode = .ok ∧
      Taken none (x.registerWrites tid) registers ∧
      Taken (some .queueBusy) ((x.dataWrites tid).take (j + 1)) elements := by
  obtain ⟨opened, taken, elements, tries, rfl, hopened, hr, he, hnext⟩ :=
    h.elements_of_le (List.getElem?_eq_none_iff.1 written)
  have hj := Transaction.getElem?_dataWrites tid entry
  refine ⟨opened, taken, elements ++ (tries ++
    [.request (.writeData tid value (j + 1 == x.stream.size)) answer]), ?_, hopened, hr, ?_⟩
  · simp only [List.cons_append, List.append_assoc]
  · rw [take_succ_of_getElem? hj]
    exact he.append ((hnext _ hj).taken (.accepted ok .nil))

theorem element {k j : Nat} {value : Element} (h : Said x tid (.writing k j) word)
    (hk : k = x.registers.length) (entry : x.stream[j]? = some value) (more : j + 1 < x.stream.size)
    (ok : answer.exitCode = .ok) :
    Said x tid (.writing k (j + 1))
      (word ++ [.request (.writeData tid value (j + 1 == x.stream.size)) answer]) := by
  obtain ⟨opened, taken, elements, hword, hopened, hr, he⟩ := h.take_element (by simp [hk]) entry ok
  have hlen : j + 1 < (x.dataWrites tid).length := by simpa using more
  rw [hword, hk, ← List.append_nil elements]
  exact .elements hopened hr he (List.getElem?_eq_getElem hlen) fun _ he => absurd he List.not_mem_nil

theorem lastElement {k j : Nat} {value : Element} (h : Said x tid (.writing k j) word)
    (hk : k = x.registers.length) (entry : x.stream[j]? = some value) (last : j + 1 = x.stream.size)
    (ok : answer.exitCode = .ok) :
    Said x tid .executing
      (word ++ [.request (.writeData tid value (j + 1 == x.stream.size)) answer]) := by
  obtain ⟨opened, taken, elements, hword, hopened, hr, he⟩ := h.take_element (by simp [hk]) entry ok
  rw [List.take_of_length_le (by simp [last])] at he
  rw [hword, ← List.append_nil (_ :: _)]
  exact .executing (.intro hopened hr he) fun _ he => absurd he List.not_mem_nil

theorem busy {k j : Nat} {value : Element} (h : Said x tid (.writing k j) word)
    (hk : k = x.registers.length) (entry : x.stream[j]? = some value)
    (code : answer.exitCode = .queueBusy) :
    Said x tid (.writing k j)
      (word ++ [.request (.writeData tid value (j + 1 == x.stream.size)) answer]) := by
  obtain ⟨opened, taken, elements, tries, rfl, hopened, hr, he, hnext⟩ :=
    h.elements_of_le (Nat.le_of_eq hk.symm)
  have hj := Transaction.getElem?_dataWrites tid entry
  have hsaid := Said.elements hopened hr he hj ((hnext _ hj).snoc code)
  simp only [List.cons_append, List.append_assoc] at hsaid ⊢
  rw [hk]
  exact hsaid

theorem wait (h : Said x tid .executing word) : Said x tid .executing (word ++ [.question tid false]) := by
  cases h with
  | executing written waits =>
    rw [List.append_assoc]
    refine .executing written fun e he => ?_
    obtain he | he := List.mem_append.1 he
    · exact waits e he
    · exact List.mem_singleton.1 he

theorem done (h : Said x tid .executing word) : Said x tid (.reading 0) (word ++ [.question tid true]) := by
  cases h with
  | executing written waits =>
    exact .reading written waits (fun _ he => absurd he List.not_mem_nil) (Nat.zero_le _)

theorem read_snoc {written waits reads : List Exchange} (hw : Written x tid written)
    (hwaits : ∀ e ∈ waits, e = .question tid false) (hreads : ∀ e ∈ reads, IsRead tid e)
    (hread : IsRead tid (.request (.readData tid) answer))
    (le : (reads ++ [Exchange.request (.readData tid) answer]).countP Exchange.isAccepted ≤ x.outputCount) :
    Said x tid (.reading ((reads ++ [Exchange.request (.readData tid) answer]).countP Exchange.isAccepted))
      (written ++ waits ++ .question tid true :: reads ++ [Exchange.request (.readData tid) answer]) := by
  have hall : ∀ e ∈ reads ++ [Exchange.request (.readData tid) answer], IsRead tid e := by
    intro e he
    obtain he | he := List.mem_append.1 he
    · exact hreads e he
    · rw [List.mem_singleton.1 he]
      exact hread
  have hsaid := Said.reading hw hwaits hall le
  simpa only [List.append_assoc, List.cons_append] using hsaid

theorem read {r : Nat} (h : Said x tid (.reading r) word) (lt : r < x.outputCount)
    (ok : answer.exitCode = .ok) :
    Said x tid (.reading (r + 1)) (word ++ [.request (.readData tid) answer]) := by
  cases h with
  | @reading written waits reads hw hwaits hreads le =>
    have hcount : (reads ++ [Exchange.request (.readData tid) answer]).countP Exchange.isAccepted =
        reads.countP Exchange.isAccepted + 1 := by
      simp [Exchange.isAccepted, ok]
    rw [← hcount]
    exact read_snoc hw hwaits hreads ⟨answer, rfl, .inl ok⟩ (by omega)

theorem notDone {r : Nat} (h : Said x tid (.reading r) word) (code : answer.exitCode = .notDone) :
    Said x tid (.reading r) (word ++ [.request (.readData tid) answer]) := by
  cases h with
  | @reading written waits reads hw hwaits hreads le =>
    have hcount : (reads ++ [Exchange.request (.readData tid) answer]).countP Exchange.isAccepted =
        reads.countP Exchange.isAccepted := by
      simp [Exchange.isAccepted, code]
    rw [← hcount]
    exact read_snoc hw hwaits hreads ⟨answer, rfl, .inr code⟩ (by omega)

end Said

end NeuralEngine
