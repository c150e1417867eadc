import Libble.Foundation.LinkedCells

/-!
# Queues in memory

`bluez/src/shared/queue.c`: a queue is a structure with a reference count, pointers to its first
and its last entry and the number of its entries; the entries are linked cells. The state of the
memory is given with all queues and all entries in it, and a function that reads or writes
something that is not there has no result.

Some functions call back: `queue_foreach` the function that it was given, and `queue_remove_all`
and `queue_destroy` the one that destroys an item. A callback may call any function of the queues
itself, so what these functions still have to do is kept in `todo`, innermost first. Functions
that match items only look at them. `malloc` does not give an address twice.

## Main definitions

* `Queue`, `Queue.Heap`: queues and the memory.
* `Queue.Heap.queuePushTail`, `Queue.Heap.queuePushHead`, `Queue.Heap.queuePushAfter`,
  `Queue.Heap.queuePopHead`, `Queue.Heap.queuePeekHead`, `Queue.Heap.queuePeekTail`,
  `Queue.Heap.queueFind`, `Queue.Heap.queueRemove`, `Queue.Heap.queueRemoveIf`,
  `Queue.Heap.queueGetEntries`, `Queue.Heap.queueLength`, `Queue.Heap.queueIsempty`.
* `Queue.Memory`, `Queue.Memory.step`, `Queue.Memory.machine`: the functions that call back.
-/

namespace Libble

/-- `struct queue` -/
structure Queue where
  /-- The `int ref_count`, without a bound: it does not overflow. -/
  refCount : Int
  head : Option Nat
  tail : Option Nat
  entries : UInt32
  deriving DecidableEq, Repr

namespace Queue

variable {α : Type}

/-- The queues and the entries in the memory. -/
structure Heap (α : Type) where
  queues : Nat → Option Queue
  cells : Cells α
  /-- The address of the next queue. -/
  nextQueue : Nat
  /-- The address of the next entry. -/
  nextCell : Nat

/-- What a function returns. -/
inductive Result (α : Type)
  | bool (b : Bool)
  | data (item : Option α)
  | count (n : UInt32)
  | entry (p : Option Nat)
  | queue (q : Nat)
  deriving DecidableEq, Repr

namespace Heap

/-- A queue is written. -/
def setQueue (m : Heap α) (q : Nat) (queue : Option Queue) : Heap α :=
  { m with queues := Function.update m.queues q queue }

/-- `queue_new` -/
def queueNew (m : Heap α) : Heap α :=
  { m.setQueue m.nextQueue (some ⟨1, none, none, 0⟩) with nextQueue := m.nextQueue + 1 }

/-- `queue_ref` -/
def queueRef (m : Heap α) (q : Nat) : Option (Heap α) :=
  (m.queues q).map fun queue => m.setQueue q (some { queue with refCount := queue.refCount + 1 })

/-- `queue_unref` -/
def queueUnref (m : Heap α) (q : Nat) : Option (Heap α) :=
  (m.queues q).map fun queue => m.setQueue q
    (if queue.refCount - 1 = 0 then none else some { queue with refCount := queue.refCount - 1 })

/-- `queue_entry_new`, with the address that the entry will refer to. -/
def queueEntryNew (m : Heap α) (data : α) (next : Option Nat) : Heap α :=
  { m with
    cells := m.cells.alloc m.nextCell ⟨data, next⟩
    nextCell := m.nextCell + 1 }

/-- `queue_push_tail` -/
def queuePushTail (m : Heap α) (q : Nat) (data : α) : Option (Heap α × Bool) := do
  let queue ← m.queues q
  let entry := m.nextCell
  let m := m.queueEntryNew data none
  let cells ← match queue.tail with
    | some tail => m.cells.setNext tail (some entry)
    | none => some m.cells
  some ({ m with cells := cells }.setQueue q (some { queue with
    tail := some entry
    head := queue.head.or (some entry)
    entries := queue.entries + 1 }), true)

/-- `queue_push_head` -/
def queuePushHead (m : Heap α) (q : Nat) (data : α) : Option (Heap α × Bool) := do
  let queue ← m.queues q
  let entry := m.nextCell
  some ((m.queueEntryNew data queue.head).setQueue q (some { queue with
    head := some entry
    tail := queue.tail.or (some entry)
    entries := queue.entries + 1 }), true)

/-- The loop of `queue_push_after`, `queue_find`, `queue_remove` and `queue_remove_if`: the first
entry whose data match, with the one before it. A loop that takes too many turns, and one that
reads an entry that is not there, has no result. -/
def seek (cells : Cells α) (function : α → Bool) :
    Nat → Option Nat → Option Nat → Option (Option (Option Nat × Nat × Cell α))
  | 0, _, _ => none
  | _ + 1, _, none => some none
  | turns + 1, prev, some a => do
    let entry ← cells a
    if function entry.data then some (some (prev, a, entry))
    else seek cells function turns (some a) entry.next

/-- The loop from the head of a queue on; there are no more turns than entries. -/
def seekFrom (m : Heap α) (function : α → Bool) (queue : Queue) :
    Option (Option (Option Nat × Nat × Cell α)) :=
  seek m.cells function (m.nextCell + 1) none queue.head

/-- `queue_push_after` -/
def queuePushAfter [DecidableEq α] (m : Heap α) (q : Nat) (entry data : α) :
    Option (Heap α × Bool) := do
  let queue ← m.queues q
  match ← m.seekFrom (· = entry) queue with
  | none => some (m, false)
  | some (_, qentry, cell) =>
    let newEntry := m.nextCell
    let m := m.queueEntryNew data cell.next
    let cells ← m.cells.setNext qentry (some newEntry)
    some ({ m with cells := cells }.setQueue q (some { queue with
      tail := if cell.next = none then some newEntry else queue.tail
      entries := queue.entries + 1 }), true)

/-- `queue_pop_head` -/
def queuePopHead (m : Heap α) (q : Nat) : Option (Heap α × Option α) := do
  let queue ← m.queues q
  match queue.head with
  | none => some (m, none)
  | some a =>
    let entry ← m.cells a
    some ({ m with cells := m.cells.release a }.setQueue q (some { queue with
      head := entry.next
      tail := if entry.next = none then none else queue.tail
      entries := queue.entries - 1 }), some entry.data)

/-- The data of an entry, if there is one. -/
def peek (m : Heap α) : Option Nat → Option (Option α)
  | none => some none
  | some a => (m.cells a).map fun entry => some entry.data

/-- `queue_peek_head` -/
def queuePeekHead (m : Heap α) (q : Nat) : Option (Option α) := do
  let queue ← m.queues q
  if queue.head = none then some none else m.peek queue.head

/-- `queue_peek_tail` -/
def queuePeekTail (m : Heap α) (q : Nat) : Option (Option α) := do
  let queue ← m.queues q
  if queue.tail = none then some none else m.peek queue.tail

/-- `queue_find` -/
def queueFind (m : Heap α) (q : Nat) (function : α → Bool) : Option (Option α) := do
  let queue ← m.queues q
  let found ← m.seekFrom function queue
  some (found.map fun (_, _, entry) => entry.data)

/-- How `queue_remove` and `queue_remove_if` take an entry out. -/
def unlink (m : Heap α) (q : Nat) (queue : Queue) (prev : Option Nat) (a : Nat) (entry : Cell α) :
    Option (Heap α) := do
  let cells ← match prev with
    | some b => m.cells.setNext b entry.next
    | none => some m.cells
  some ({ m with cells := cells.release a }.setQueue q (some { queue with
    head := if prev = none then entry.next else queue.head
    tail := if entry.next = none then prev else queue.tail
    entries := queue.entries - 1 }))

/-- `queue_remove` -/
def queueRemove [DecidableEq α] (m : Heap α) (q : Nat) (data : α) : Option (Heap α × Bool) := do
  let queue ← m.queues q
  match ← m.seekFrom (· = data) queue with
  | none => some (m, false)
  | some (prev, a, entry) => (m.unlink q queue prev a entry).map (·, true)

/-- `queue_remove_if` -/
def queueRemoveIf (m : Heap α) (q : Nat) (function : α → Bool) :
    Option (Heap α × Option α) := do
  let queue ← m.queues q
  match ← m.seekFrom function queue with
  | none => some (m, none)
  | some (prev, a, entry) => (m.unlink q queue prev a entry).map (·, some entry.data)

/-- `queue_get_entries` -/
def queueGetEntries (m : Heap α) (q : Nat) : Option (Option Nat) := (m.queues q).map Queue.head

/-- `queue_length` -/
def queueLength (m : Heap α) (q : Nat) : Option UInt32 := (m.queues q).map Queue.entries

/-- `queue_isempty` -/
def queueIsempty (m : Heap α) (q : Nat) : Option Bool := (m.queues q).map (·.entries = 0)

end Heap

/-! ### Functions that do not call back -/

/-- The functions that do not call back. -/
inductive Op (α : Type)
  | pushTail (data : α)
  | pushHead (data : α)
  | pushAfter (entry data : α)
  | popHead
  | peekHead
  | peekTail
  | find (function : α → Bool)
  | remove (data : α)
  | removeIf (function : α → Bool)
  | getEntries
  | length
  | isempty

/-- What a function returns about the null pointer. -/
def Op.null : Op α → Result α
  | pushTail _ | pushHead _ | pushAfter .. | remove _ => .bool false
  | popHead | peekHead | peekTail | find _ | removeIf _ => .data none
  | getEntries => .entry none
  | length => .count 0
  | isempty => .bool true

/-- A function is called about a queue. -/
def Heap.exec [DecidableEq α] (m : Heap α) (q : Nat) : Op α → Option (Heap α × Result α)
  | .pushTail data => (m.queuePushTail q data).map fun (m, b) => (m, .bool b)
  | .pushHead data => (m.queuePushHead q data).map fun (m, b) => (m, .bool b)
  | .pushAfter entry data => (m.queuePushAfter q entry data).map fun (m, b) => (m, .bool b)
  | .popHead => (m.queuePopHead q).map fun (m, item) => (m, .data item)
  | .peekHead => (m.queuePeekHead q).map fun item => (m, .data item)
  | .peekTail => (m.queuePeekTail q).map fun item => (m, .data item)
  | .find function => (m.queueFind q function).map fun item => (m, .data item)
  | .remove data => (m.queueRemove q data).map fun (m, b) => (m, .bool b)
  | .removeIf function => (m.queueRemoveIf q function).map fun (m, item) => (m, .data item)
  | .getEntries => (m.queueGetEntries q).map fun p => (m, .entry p)
  | .length => (m.queueLength q).map fun n => (m, .count n)
  | .isempty => (m.queueIsempty q).map fun b => (m, .bool b)

/-! ### Functions that call back -/

/-- What a function that calls back still has to do. -/
inductive Frame (α : Type)
  /-- The callback is running. -/
  | function
  /-- The loop of `queue_foreach` at an entry. -/
  | foreach (q : Nat) (entry : Option Nat)
  /-- The loop of `queue_remove_all` for the items that match. -/
  | removeMatching (q : Nat) (function : α → Bool) (destroy : Bool) (count : UInt32)
  /-- The loop of `queue_remove_all` for all items, at an entry. -/
  | removeEntries (entry : Option Nat) (destroy : Bool) (count : UInt32)
  /-- The rest of a turn of this loop: `tmp` is released. -/
  | removed (tmp : Nat) (entry : Option Nat) (destroy : Bool) (count : UInt32)
  /-- The end of `queue_destroy`. -/
  | unref (q : Nat)

/-- The function that called the library is in control: no function of the queues is running, or a
callback is. -/
def Frame.isFunction : Frame α → Bool
  | function => true
  | _ => false

/-- What happens. -/
inductive Act (α : Type)
  /-- A function returns a result. -/
  | returned (result : Result α)
  /-- A callback is called with an item. -/
  | called (data : α)
  deriving DecidableEq, Repr

/-- The steps. A function is called with the address of a queue or the null pointer. -/
inductive Label (α : Type)
  /-- `queue_new` -/
  | new
  /-- A function that does not call back. -/
  | call (q : Option Nat) (op : Op α)
  /-- `queue_foreach` -/
  | foreach (q : Option Nat)
  /-- `queue_remove_all`, with a function that destroys the items or without. -/
  | removeAll (q : Option Nat) (function : Option (α → Bool)) (destroy : Bool)
  /-- `queue_destroy` -/
  | destroy (q : Option Nat) (destroy : Bool)
  /-- The callback returns. -/
  | ret
  /-- The function runs on. -/
  | resume

/-- The memory, what is still to be done, and what happened. -/
structure Memory (α : Type) where
  heap : Heap α
  todo : List (Frame α)
  log : List (Act α)

namespace Memory

/-- Before the first queue is made. -/
def init : Memory α := ⟨⟨fun _ => none, fun _ => none, 0, 0⟩, [], []⟩

/-- A caller is in control. -/
def InControl (m : Memory α) : Prop := m.todo.head?.all Frame.isFunction

instance (m : Memory α) : Decidable m.InControl := inferInstanceAs (Decidable (_ = true))

/-- A callback is called, if there is one. -/
def callBack (m : Memory α) (called : Bool) (data : α) : Memory α :=
  if called then { m with todo := .function :: m.todo, log := m.log ++ [.called data] } else m

/-- The entries of a queue are detached, which is how `queue_remove_all` begins to remove all
items. -/
def detach (m : Memory α) (q : Nat) (destroy : Bool) (rest : List (Frame α)) :
    Option (Memory α) := do
  let queue ← m.heap.queues q
  some { m with
    heap := m.heap.setQueue q (some { queue with head := none, tail := none, entries := 0 })
    todo := .removeEntries queue.head destroy 0 :: rest }

variable [DecidableEq α]

/-- A function runs on. -/
def run (m : Memory α) : Frame α → Option (Memory α)
  | .function => none
  | .foreach q none => do some { m with heap := ← m.heap.queueUnref q }
  | .foreach q (some a) => do
    let queue ← m.heap.queues q
    if queue.head ≠ none ∧ 1 < queue.refCount then
      let entry ← m.heap.cells a
      some (callBack { m with todo := .foreach q entry.next :: m.todo } true entry.data)
    else some { m with heap := ← m.heap.queueUnref q }
  | .removeMatching q function destroy count => do
    let queue ← m.heap.queues q
    let (heap, data) ← m.heap.queueRemoveIf q function
    let queue' ← heap.queues q
    if queue'.entries = queue.entries then
      some { m with heap := heap, log := m.log ++ [.returned (.count count)] }
    else
      let data ← data
      some (callBack
        { m with heap := heap, todo := .removeMatching q function destroy (count + 1) :: m.todo }
        destroy data)
  | .removeEntries none _ count => some { m with log := m.log ++ [.returned (.count count)] }
  | .removeEntries (some tmp) destroy count => do
    let entry ← m.heap.cells tmp
    some (callBack { m with todo := .removed tmp entry.next destroy count :: m.todo }
      destroy entry.data)
  | .removed tmp entry destroy count => do
    let _ ← m.heap.cells tmp
    some { m with
      heap := { m.heap with cells := m.heap.cells.release tmp }
      todo := .removeEntries entry destroy (count + 1) :: m.todo }
  | .unref q => do some { m with heap := ← m.heap.queueUnref q }

/-- One step. -/
def step (m : Memory α) : Label α → Option (Memory α)
  | .new =>
    if m.InControl then
      some { m with
        heap := m.heap.queueNew
        log := m.log ++ [.returned (.queue m.heap.nextQueue)] }
    else none
  | .call q op =>
    if m.InControl then
      match q with
      | none => some { m with log := m.log ++ [.returned op.null] }
      | some q => do
        let (heap, result) ← m.heap.exec q op
        some { m with heap := heap, log := m.log ++ [.returned result] }
    else none
  | .foreach q =>
    if m.InControl then
      match q with
      | none => some m
      | some q => do
        let queue ← m.heap.queues q
        if queue.head = none then some m
        else some { m with
          heap := ← m.heap.queueRef q
          todo := .foreach q queue.head :: m.todo }
    else none
  | .removeAll q function destroy =>
    if m.InControl then
      match q, function with
      | none, _ => some { m with log := m.log ++ [.returned (.count 0)] }
      | some q, some function => do
        let queue ← m.heap.queues q
        if queue.head = none then some { m with log := m.log ++ [.returned (.count 0)] }
        else some { m with todo := .removeMatching q function destroy 0 :: m.todo }
      | some q, none => m.detach q destroy m.todo
    else none
  | .destroy q destroy =>
    if m.InControl then
      match q with
      | none => some m
      | some q => m.detach q destroy (.unref q :: m.todo)
    else none
  | .ret => match m.todo with
    | .function :: todo => some { m with todo := todo }
    | _ => none
  | .resume => match m.todo with
    | frame :: todo => run { m with todo := todo } frame
    | [] => none

/-- The memory as a labelled machine. -/
def machine : LabelledMachine (Memory α) (Label α) := ⟨step⟩

end Memory

end Queue

end Libble
