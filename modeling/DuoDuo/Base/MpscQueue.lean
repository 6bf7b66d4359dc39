import DuoDuo.Library.GapQueue
import DuoDuo.Library.Machine
import Mathlib.Logic.Function.Basic

/-!
# The lock-free queue with many producers and one consumer

The steps are the atomic steps of `MpscQueue.h`: the exchange of `head_`, the
stores of `next_` and `tail_`, the load of `next_`, and the allocation and
deletion of nodes. Any number of producers may be inside `enqueue`, the
consumer is inside `dequeue` or `empty`, and the steps interleave arbitrarily.
A new node may take any address that is not in use, so addresses are reused.
An access to a node or to data that does not exist is recorded.
-/

namespace DuoDuo.Base

open Library

/-- The address of a node. -/
abbrev NodePtr := ℕ

/-- `MpscQueue::BufferNode`. -/
structure BufferNode (T : Type*) where
  /-- The object behind `dataPtr_`, if there is one. -/
  dataPtr : Option T := none
  /-- `next_`. -/
  next : Option NodePtr := none

/-- The position of a producer inside `enqueue`. -/
inductive EnqueuePoint (T : Type*)
  /-- The producer is not inside `enqueue`. -/
  | idle
  /-- The node has been constructed. -/
  | created (node : NodePtr) (input : T)
  /-- The exchange has returned `prevhead`, whose `next_` is still to be stored. -/
  | exchanged (node prevhead : NodePtr)

/-- The position of the consumer inside `dequeue` or `empty`. -/
inductive ConsumerPoint (T : Type*)
  /-- The consumer is in neither. -/
  | idle
  /-- `tail_` has been loaded, by `dequeue` or by `empty`. -/
  | tailLoaded (dequeuing : Bool) (tail : NodePtr)
  /-- `dequeue` has loaded a `next_` that is not null. -/
  | nextLoaded (tail next : NodePtr)
  /-- The item has been moved to `output`, and its data has been deleted. -/
  | moved (tail next : NodePtr) (output : T)
  /-- `tail_` has been stored, and the old node is about to be deleted. -/
  | tailStored (tail : NodePtr) (output : T)
  /-- `dequeue` returns, with an output or with `false`. -/
  | dequeued (output : Option T)
  /-- `empty` returns. -/
  | observed (isEmpty : Bool)

/-- `MpscQueue`, the threads that use it, and the history of their calls. -/
structure MpscQueue (P T : Type*) where
  /-- The nodes that are allocated. -/
  nodes : NodePtr → Option (BufferNode T)
  /-- `head_`. -/
  head : NodePtr
  /-- `tail_`. -/
  tail : NodePtr
  /-- The producers. -/
  producers : P → EnqueuePoint T := fun _ => .idle
  /-- The consumer. -/
  consumer : ConsumerPoint T := .idle
  /-- The items each producer has passed to `enqueue`, in order. -/
  issued : P → List T := fun _ => []
  /-- The items whose exchange has been executed, in order. -/
  exchanged : List (P × T) := []
  /-- The items that `dequeue` has put out, in order. -/
  output : List T := []
  /-- A node or an item that does not exist has been accessed. -/
  invalidAccess : Bool := false

/-- The atomic steps. -/
inductive MpscStep (P T : Type*)
  /-- A producer calls `enqueue`, and its node is allocated. -/
  | enqueue (p : P) (input : T) (node : NodePtr)
  /-- `head_.exchange`. -/
  | exchange (p : P)
  /-- The store to `prevhead->next_`. -/
  | storeNext (p : P)
  /-- The consumer calls `dequeue`. -/
  | dequeue
  /-- The consumer calls `empty`. -/
  | empty
  /-- The load of `tail->next_`. -/
  | loadNext
  /-- The move to `output` and the deletion of the data. -/
  | moveData
  /-- The store to `tail_`. -/
  | storeTail
  /-- The deletion of the old tail. -/
  | deleteTail
  /-- The call of the consumer returns. -/
  | returns

namespace MpscQueue

variable {P T : Type*} [DecidableEq P]

/-- The node at `a`; a default node if there is none. -/
def node (q : MpscQueue P T) (a : NodePtr) : BufferNode T := (q.nodes a).getD {}

/-- Access the node at `a`. -/
def access (q : MpscQueue P T) (a : NodePtr) : MpscQueue P T :=
  { q with invalidAccess := q.invalidAccess || (q.nodes a).isNone }

/-- Write the node at `a`, which is allocated. -/
def setNode (q : MpscQueue P T) (a : NodePtr) (n : BufferNode T) : MpscQueue P T :=
  { q with nodes := Function.update q.nodes a (some n) }

/-- `delete` of the node at `a`. -/
def deleteNode (q : MpscQueue P T) (a : NodePtr) : MpscQueue P T :=
  { q.access a with nodes := Function.update q.nodes a none }

/-- Move the producer `p` on. -/
def setProducer (q : MpscQueue P T) (p : P) (point : EnqueuePoint T) : MpscQueue P T :=
  { q with producers := Function.update q.producers p point }

/-- The construction of the node in `enqueue`. -/
def createNode (q : MpscQueue P T) (p : P) (input : T) (a : NodePtr) : MpscQueue P T :=
  { (q.setNode a { dataPtr := some input }).setProducer p (.created a input) with
    issued := Function.update q.issued p (q.issued p ++ [input]) }

/-- `head_.exchange(node)`. -/
def exchangeHead (q : MpscQueue P T) (p : P) (a : NodePtr) (input : T) : MpscQueue P T :=
  { q.setProducer p (.exchanged a q.head) with
    head := a, exchanged := q.exchanged ++ [(p, input)] }

/-- `prevhead->next_.store(node)`, after which `enqueue` returns. -/
def storeNext (q : MpscQueue P T) (p : P) (a prevhead : NodePtr) : MpscQueue P T :=
  ((q.access prevhead).setNode prevhead { q.node prevhead with next := some a }).setProducer p
    .idle

/-- The load of `tail->next_` and the test for null. -/
def loadNext (q : MpscQueue P T) (dequeuing : Bool) (tail : NodePtr) : MpscQueue P T :=
  { q.access tail with
    consumer :=
      if dequeuing then
        match (q.node tail).next with
        | none => .dequeued none
        | some next => .nextLoaded tail next
      else .observed (q.node tail).next.isNone }

/-- `output = std::move(*(next->dataPtr_)); delete next->dataPtr_`. -/
def moveData (q : MpscQueue P T) (tail next : NodePtr) : MpscQueue P T :=
  match (q.node next).dataPtr with
  | some x =>
    { (q.access next).setNode next { q.node next with dataPtr := none } with
      consumer := .moved tail next x, output := q.output ++ [x] }
  | none => { q with invalidAccess := true, consumer := .dequeued none }

/-- The transitions of the producers and the consumer. -/
def next (q : MpscQueue P T) : MpscStep P T → Option (MpscQueue P T)
  | .enqueue p input a =>
    match q.producers p, q.nodes a with
    | .idle, none => some (q.createNode p input a)
    | _, _ => none
  | .exchange p =>
    match q.producers p with
    | .created a input => some (q.exchangeHead p a input)
    | _ => none
  | .storeNext p =>
    match q.producers p with
    | .exchanged a prevhead => some (q.storeNext p a prevhead)
    | _ => none
  | .dequeue =>
    match q.consumer with
    | .idle => some { q with consumer := .tailLoaded true q.tail }
    | _ => none
  | .empty =>
    match q.consumer with
    | .idle => some { q with consumer := .tailLoaded false q.tail }
    | _ => none
  | .loadNext =>
    match q.consumer with
    | .tailLoaded dequeuing tail => some (q.loadNext dequeuing tail)
    | _ => none
  | .moveData =>
    match q.consumer with
    | .nextLoaded tail next => some (q.moveData tail next)
    | _ => none
  | .storeTail =>
    match q.consumer with
    | .moved tail next output => some { q with tail := next, consumer := .tailStored tail output }
    | _ => none
  | .deleteTail =>
    match q.consumer with
    | .tailStored tail output =>
      some { q.deleteNode tail with consumer := .dequeued (some output) }
    | _ => none
  | .returns =>
    match q.consumer with
    | .dequeued _ | .observed _ => some { q with consumer := .idle }
    | _ => none

/-- The queue after its constructor: one node, which is head and tail. -/
def constructed (a : NodePtr) : MpscQueue P T :=
  { nodes := Function.update (fun _ => none) a (some {}), head := a, tail := a }

/-- The machine of the queue and its threads. -/
def machine (P T : Type*) [DecidableEq P] : Machine (MpscQueue P T) (MpscStep P T) :=
  Machine.ofNext (fun q => ∃ a, q = constructed a) next

end MpscQueue

end DuoDuo.Base
