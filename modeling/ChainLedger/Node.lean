import ChainLedger.Store

set_option autoImplicit false

namespace ChainLedger

structure Node (T : Layering) where
  addr : Nat
  value : Int64
  owner : Handle T
deriving DecidableEq

/-- Nodes in the order of their links, each owning those behind it. -/
abbrev Tail (T : Layering) : Type :=
  List (Node T)

/-- Whether the caller can go on without the block asked for. -/
inductive Demand where
  /-- A refusal is reported to the caller. -/
  | attempt
  /-- A refusal ends the run. -/
  | insist
deriving DecidableEq

/-- How an operation fails that asked for a block of this layout and was refused. -/
def Demand.onRefusal (layout : Layout) : Demand → Failure
  | .attempt => .refused
  | .insist => .aborted layout

variable {T : Layering} {π : Type}

/-- The record of a node: eight bytes each for the value and the link, and the handle to the
record's allocator, which for a ledger is one address. -/
def recordLayout (π : Type) [Parent π] : Handle T → Layout
  | none => ⟨16 + Parent.handleSize π, 8⟩
  | some _ => ⟨24, 8⟩

namespace Node

variable [Parent π]

def allocate (demand : Demand) (owner : Handle T) (value : Int64) (store : Store T π) :
    Except Failure (Node T) × Store T π :=
  match store.allocate owner (recordLayout π owner) with
  | (.ok addr, store) => (.ok ⟨addr, value, owner⟩, store.emit (.nodeAllocated value addr))
  | (.error .refused, store) => (.error (demand.onRefusal (recordLayout π owner)), store)
  | (.error failure, store) => (.error failure, store)

/-- Gives the record of a node back to where it came from. The event precedes the return, so it is
there also when the return is a fault. -/
def free (node : Node T) (store : Store T π) : Option Fault × Store T π :=
  (store.emit (.nodeReleased node.value node.addr)).deallocate node.owner node.addr
    (recordLayout π node.owner)

theorem trace_free (node : Node T) (store : Store T π) :
    (node.free store).2.trace = .nodeReleased node.value node.addr :: store.trace :=
  Store.trace_deallocateAlong _ _ _ _

theorem events_free (node : Node T) (store : Store T π) :
    (node.free store).2.events = store.events ++ [.nodeReleased node.value node.addr] := by
  simp only [Store.events, trace_free, List.reverse_cons]

theorem of_allocate {demand : Demand} {owner : Handle T} {value : Int64}
    {store after : Store T π} {node : Node T}
    (granted : allocate demand owner value store = (.ok node, after)) :
    node.value = value ∧ node.owner = owner := by
  simp only [allocate] at granted
  split at granted
  · simp only [Prod.mk.injEq, Except.ok.injEq] at granted
    obtain ⟨rfl, _⟩ := granted
    exact ⟨rfl, rfl⟩
  · simp only [Prod.mk.injEq, reduceCtorEq, false_and] at granted
  · simp only [Prod.mk.injEq, reduceCtorEq, false_and] at granted

end Node

namespace Tail

def values (tail : Tail T) : List Int64 :=
  tail.map Node.value

/-- Cuts a tail behind the node at a position: what stays and what is cut off. There is no cut
behind a node that is not there. -/
def cutAfter? (position : Nat) (tail : Tail T) : Option (Tail T × Tail T) :=
  if position < tail.length then
    some (tail.take (position + 1), tail.drop (position + 1))
  else
    none

theorem append_of_cutAfter? {position : Nat} {tail kept cut : Tail T}
    (found : cutAfter? position tail = some (kept, cut)) :
    kept ++ cut = tail ∧ kept.length = position + 1 := by
  simp only [cutAfter?] at found
  split at found
  · next inside =>
    simp only [Option.some.injEq, Prod.mk.injEq] at found
    obtain ⟨rfl, rfl⟩ := found
    exact ⟨List.take_append_drop _ _, by rw [List.length_take]; omega⟩
  · cases found

variable [Parent π]

/-- Frees every node of a tail and keeps the first fault, `first` being one found before. -/
def discardAfter (first : Option Fault) : Tail T → Store T π → Option Fault × Store T π
  | [], store => (first, store)
  | node :: rest, store =>
      match node.free store with
      | (fault, store) => discardAfter (first.or fault) rest store

/-- Frees every node of a tail, front to back. A fault does not keep the nodes behind it from
being freed. -/
def discard (tail : Tail T) (store : Store T π) : Option Fault × Store T π :=
  discardAfter none tail store

theorem discardAfter_eq (first : Option Fault) (tail : Tail T) (store : Store T π) :
    discardAfter first tail store = (first.or (discard tail store).1, (discard tail store).2) := by
  induction tail generalizing first store with
  | nil => simp only [discard, discardAfter, Option.or_none]
  | cons node rest ih =>
    simp only [discard, discardAfter, Option.none_or]
    rw [ih, ih (node.free store).1, Option.or_assoc]

@[simp] theorem discard_nil (store : Store T π) : discard [] store = (none, store) := rfl

theorem discard_cons (node : Node T) (rest : Tail T) (store : Store T π) :
    discard (node :: rest) store =
      ((node.free store).1.or (discard rest (node.free store).2).1,
        (discard rest (node.free store).2).2) := by
  simp only [discard, discardAfter, Option.none_or]
  rw [discardAfter_eq]
  rfl

/-- Discarding two tails in turn is discarding them as one. -/
theorem discard_append (front back : Tail T) (store : Store T π) :
    discard (front ++ back) store =
      ((discard front store).1.or (discard back (discard front store).2).1,
        (discard back (discard front store).2).2) := by
  induction front generalizing store with
  | nil => simp only [List.nil_append, discard_nil, Option.none_or]
  | cons node rest ih =>
    simp only [List.cons_append, discard_cons, ih, Option.or_assoc]

/-- Every node of a discarded tail is released once, front to back. -/
theorem events_discard (tail : Tail T) (store : Store T π) :
    (discard tail store).2.events =
      store.events ++ tail.map fun node => .nodeReleased node.value node.addr := by
  induction tail generalizing store with
  | nil => simp only [discard_nil, List.map_nil, List.append_nil]
  | cons node rest ih =>
    simp only [discard_cons, ih, Node.events_free, List.map_cons, List.append_assoc,
      List.singleton_append]

/-- Frees a node and answers with the tail behind it. On a fault that tail has no owner left, and
is discarded. -/
def releaseHead (node : Node T) (rest : Tail T) (store : Store T π) :
    Except Fault (Tail T) × Store T π :=
  match node.free store with
  | (none, store) => (.ok rest, store)
  | (some fault, store) => (.error fault, (discard rest store).2)

end Tail

end ChainLedger
