import Libble.Queue.Memory

/-!
# Queues as lists

What the queues are for: each of them is a list, to which items are added and from which items
are taken. Every item has a name of its own, so that two equal items are told apart. The items
that `queue_remove_all` has taken from a queue and has not handed out yet are a list of their
own.

The functions that call back go on where they left off, and what they expect of the callbacks is
what the steps here ask for: a function is called about a queue that is there, `queue_foreach`
goes on with an item that is still in its queue unless the queue has become empty or was
destroyed, and a queue is empty when its last reference is given back.

## Main definitions

* `Queue.Place`, `Queue.Lists`: the lists.
* `Queue.Op.apply`: what the functions do to a list.
* `Queue.Lists.step`, `Queue.Lists.machine`.
-/

namespace Libble.Queue

variable {α : Type}

/-- Where a list is: in a queue, or in a call of `queue_remove_all`. -/
inductive Place
  | queue (q : Nat)
  | loop (n : Nat)
  deriving DecidableEq, Repr

/-! ### What the functions do to a list -/

/-- An item is put behind the first one that matches. -/
def insertAfter (function : α → Bool) (new : Nat × α) : List (Nat × α) → Option (List (Nat × α))
  | [] => none
  | i :: l =>
    if function i.2 then some (i :: new :: l) else (insertAfter function new l).map (i :: ·)

/-- The list after a function; `name` is the name of a new item. -/
def Op.apply [DecidableEq α] (name : Nat) (l : List (Nat × α)) : Op α → List (Nat × α)
  | .pushTail data => l ++ [(name, data)]
  | .pushHead data => (name, data) :: l
  | .pushAfter entry data => (insertAfter (· = entry) (name, data) l).getD l
  | .popHead => l.tail
  | .remove data => l.eraseP (·.2 = data)
  | .removeIf function => l.eraseP (function ·.2)
  | .peekHead | .peekTail | .find _ | .getEntries | .length | .isempty => l

/-- What a function returns about a list. -/
def Op.result [DecidableEq α] (l : List (Nat × α)) : Op α → Result α
  | .pushTail _ | .pushHead _ => .bool true
  | .pushAfter entry _ => .bool (l.any (·.2 = entry))
  | .remove data => .bool (l.any (·.2 = data))
  | .popHead | .peekHead => .data (l.head?.map Prod.snd)
  | .peekTail => .data (l.getLast?.map Prod.snd)
  | .find function | .removeIf function => .data ((l.find? (function ·.2)).map Prod.snd)
  | .getEntries => .entry (l.head?.map Prod.fst)
  | .length => .count (UInt32.ofNat l.length)
  | .isempty => .bool (UInt32.ofNat l.length = 0)

/-- The function makes a new item. -/
def Op.makes [DecidableEq α] (l : List (Nat × α)) : Op α → Bool
  | .pushTail _ | .pushHead _ => true
  | .pushAfter entry _ => l.any (·.2 = entry)
  | _ => false

/-! ### Functions that call back -/

/-- What a function that calls back still has to do. -/
inductive Task (α : Type)
  | function
  /-- The loop of `queue_foreach`, before an item. -/
  | foreach (q : Nat) (item : Option Nat)
  | removeMatching (q : Nat) (function : α → Bool) (destroy : Bool) (count : UInt32)
  /-- The items of a list are handed out. -/
  | removeItems (n : Nat) (destroy : Bool) (count : UInt32)
  /-- The first item of the list was handed out. -/
  | removed (n : Nat) (destroy : Bool) (count : UInt32)
  | unref (q : Nat)

/-- A callback is running. -/
def Task.isFunction : Task α → Bool
  | function => true
  | _ => false

/-- The lists that a task hands out. -/
def Task.loops : Task α → List Nat
  | removeItems n _ _ | removed n _ _ => [n]
  | _ => []

/-- The queues, what is still to be done, and what happened. -/
structure Lists (α : Type) where
  lists : Place → List (Nat × α)
  /-- The references to the queues. -/
  refs : Nat → Option Int
  nextQueue : Nat
  nextItem : Nat
  nextLoop : Nat
  todo : List (Task α)
  log : List (Act α)

namespace Lists

/-- Before the first queue is made. -/
def init : Lists α := ⟨fun _ => [], fun _ => none, 0, 0, 0, [], []⟩

/-- A caller is in control. -/
def InControl (s : Lists α) : Prop := s.todo.head?.all Task.isFunction

instance (s : Lists α) : Decidable s.InControl := inferInstanceAs (Decidable (_ = true))

/-- A list is replaced. -/
def setList (s : Lists α) (p : Place) (l : List (Nat × α)) : Lists α :=
  { s with lists := Function.update s.lists p l }

/-- The references to a queue are counted anew. -/
def setRefs (s : Lists α) (q : Nat) (refs : Option Int) : Lists α :=
  { s with refs := Function.update s.refs q refs }

/-- A callback is called, if there is one. -/
def callBack (s : Lists α) (called : Bool) (data : α) : Lists α :=
  if called then { s with todo := .function :: s.todo, log := s.log ++ [.called data] } else s

/-- A reference is given back; the last one only of an empty queue. -/
def unref (s : Lists α) (q : Nat) : Option (Lists α) :=
  match s.refs q with
  | none => none
  | some refs =>
    if refs - 1 = 0 then if s.lists (.queue q) = [] then some (s.setRefs q none) else none
    else some (s.setRefs q (some (refs - 1)))

/-- The items of a queue become a list of their own. -/
def detach (s : Lists α) (q : Nat) (destroy : Bool) (rest : List (Task α)) : Option (Lists α) :=
  if s.refs q = none then none
  else some { (s.setList (.queue q) []).setList (.loop s.nextLoop) (s.lists (.queue q)) with
    nextLoop := s.nextLoop + 1
    todo := .removeItems s.nextLoop destroy 0 :: rest }

variable [DecidableEq α]

/-- A function runs on. -/
def run (s : Lists α) : Task α → Option (Lists α)
  | .function => none
  | .foreach q none => s.unref q
  | .foreach q (some a) =>
    match s.refs q with
    | none => none
    | some refs =>
      if s.lists (.queue q) = [] ∨ refs ≤ 1 then s.unref q
      else match (s.lists (.queue q)).dropWhile (·.1 ≠ a) with
        | [] => none
        | i :: l => some (callBack { s with
            todo := .foreach q (l.head?.map Prod.fst) :: s.todo } true i.2)
  | .removeMatching q function destroy count =>
    if s.refs q = none then none
    else match (s.lists (.queue q)).find? (function ·.2) with
      | none => some { s with log := s.log ++ [.returned (.count count)] }
      | some i => some (callBack
          { s.setList (.queue q) ((s.lists (.queue q)).eraseP (function ·.2)) with
            todo := .removeMatching q function destroy (count + 1) :: s.todo } destroy i.2)
  | .removeItems n destroy count =>
    match s.lists (.loop n) with
    | [] => some { s with log := s.log ++ [.returned (.count count)] }
    | i :: _ => some (callBack { s with todo := .removed n destroy count :: s.todo } destroy i.2)
  | .removed n destroy count =>
    match s.lists (.loop n) with
    | [] => none
    | _ :: l => some { s.setList (.loop n) l with
        todo := .removeItems n destroy (count + 1) :: s.todo }
  | .unref q => s.unref q

/-- One step. -/
def step (s : Lists α) : Label α → Option (Lists α)
  | .new =>
    if s.InControl then
      some { s.setRefs s.nextQueue (some 1) with
        nextQueue := s.nextQueue + 1
        log := s.log ++ [.returned (.queue s.nextQueue)] }
    else none
  | .call none op =>
    if s.InControl then some { s with log := s.log ++ [.returned op.null] } else none
  | .call (some q) op =>
    if s.InControl ∧ s.refs q ≠ none then
      let l := s.lists (.queue q)
      some { s.setList (.queue q) (op.apply s.nextItem l) with
        nextItem := if op.makes l then s.nextItem + 1 else s.nextItem
        log := s.log ++ [.returned (op.result l)] }
    else none
  | .foreach none => if s.InControl then some s else none
  | .foreach (some q) =>
    if s.InControl then
      (s.refs q).map fun refs =>
        if s.lists (.queue q) = [] then s
        else { s.setRefs q (some (refs + 1)) with
          todo := .foreach q ((s.lists (.queue q)).head?.map Prod.fst) :: s.todo }
    else none
  | .removeAll none _ _ =>
    if s.InControl then some { s with log := s.log ++ [.returned (.count 0)] } else none
  | .removeAll (some q) (some function) destroy =>
    if s.InControl ∧ s.refs q ≠ none then
      if s.lists (.queue q) = [] then some { s with log := s.log ++ [.returned (.count 0)] }
      else some { s with todo := .removeMatching q function destroy 0 :: s.todo }
    else none
  | .removeAll (some q) none destroy => if s.InControl then s.detach q destroy s.todo else none
  | .destroy none _ => if s.InControl then some s else none
  | .destroy (some q) destroy =>
    if s.InControl then s.detach q destroy (.unref q :: s.todo) else none
  | .ret => match s.todo with
    | .function :: todo => some { s with todo := todo }
    | _ => none
  | .resume => match s.todo with
    | task :: todo => run { s with todo := todo } task
    | [] => none

/-- The lists as a labelled machine. -/
def machine : LabelledMachine (Lists α) (Label α) := ⟨step⟩

end Lists

end Libble.Queue
