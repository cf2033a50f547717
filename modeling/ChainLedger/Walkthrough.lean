import ChainLedger.Machine.Walk
import ChainLedger.Text.Render

set_option autoImplicit false

namespace ChainLedger

/-- A refusal gives way to a fault that is met in the aftermath; any other failure stands. -/
def Failure.orFault (later : Option Fault) : Failure → Failure
  | .refused => later.elim .refused .fault
  | failure => failure

namespace Walkthrough

inductive Entry where
  | event (event : Event)
  | bound (value : Int64)
  | advanced (value : Int64)
  | advancedTo (value : Int64) (terminal : Bool)
  | released (value : Int64) (live : Nat)
  | remaining (values : List Int64)
  | finished (live releases : Nat)
deriving DecidableEq

namespace Entry

def level : Entry → Level
  | event e => e.level
  | _ => .info

def message : Entry → String
  | event e => e.message
  | bound _ => "cursor bound to head"
  | advanced _ => "cursor advanced"
  | advancedTo .. => "cursor advanced"
  | released .. => "node released"
  | remaining _ => "remaining chain"
  | finished .. => "chain released"

def fields : Entry → Fields
  | event e => e.fields
  | bound value => [("value", .integer value.toInt)]
  | advanced value => [("value", .integer value.toInt)]
  | advancedTo value terminal => [("terminal", .truth terminal), ("value", .integer value.toInt)]
  | released value live => [("live", .integer live), ("value", .integer value.toInt)]
  | remaining values => [("values", .text (renderValues .plain "" values))]
  | finished live releases => [("live", .integer live), ("releases", .integer releases)]

end Entry

/-- How a walkthrough ended, what it wrote down, and the depot behind it. -/
structure Outcome (T : Layering) (π : Type) where
  result : Except Failure Unit
  log : List Entry
  depot : Depot T π

/-- A walkthrough that is under way: what it had written down by its latest remark, and the depot,
with the events since then. -/
structure Progress (T : Layering) (π : Type) where
  log : List Entry
  depot : Depot T π

variable {T : Layering} {π : Type}

namespace Progress

/-- Nothing is written down yet, and what happened before is not going to be. -/
def start (depot : Depot T π) : Progress T π :=
  ⟨[], { depot with store := depot.store.clearEvents }⟩

/-- All that has been written down, the events since the latest remark included. -/
def entries (progress : Progress T π) : List Entry :=
  progress.log ++ progress.depot.store.events.map .event

def remark (entry : Entry) (progress : Progress T π) : Progress T π :=
  { start progress.depot with log := progress.entries ++ [entry] }

def ended (result : Except Failure Unit) (progress : Progress T π) : Outcome T π :=
  ⟨result, progress.entries, progress.depot⟩

end Progress

variable [Parent π]

/-- Discards lists one after the other, each by the address of its first node, and keeps the first
fault. -/
def discardEach : List Nat → Depot T π → Except Hazard (Option Fault × Depot T π)
  | [], depot => .ok (none, depot)
  | addr :: later, depot => do
      let (fault, depot) ← depot.discard (some addr)
      let (further, depot) ← discardEach later depot
      return (fault.or further, depot)

def giveUp (failure : Failure) (held : List Nat) (progress : Progress T π) :
    Except Hazard (Outcome T π) := do
  let (fault, depot) ← discardEach held progress.depot
  return ({ progress with depot }).ended (.error (failure.orFault fault))

/-- Allocates a node of ledger `i` and goes on with it, or gives up with the nodes at hand. -/
def withNode (i : Fin T.size) (value : Int64) (held : List Nat) (progress : Progress T π)
    (onward : Nat → Progress T π → Except Hazard (Outcome T π)) : Except Hazard (Outcome T π) := do
  match ← progress.depot.allocate .attempt (some i) value with
  | (.ok addr, depot) => onward addr { progress with depot }
  | (.error failure, depot) => giveUp failure held { progress with depot }

/-- Discards the list and goes on, or ends with the fault. -/
def discarding (head : Option Nat) (progress : Progress T π)
    (onward : Progress T π → Outcome T π) : Except Hazard (Outcome T π) := do
  match ← progress.depot.discard head with
  | (none, depot) => return onward { progress with depot }
  | (some fault, depot) => return ({ progress with depot }).ended (.error (.fault fault))

/-- Writes down the values of a list, unless it is empty. -/
def remarkRemaining (head : Option Nat) (progress : Progress T π) :
    Except Hazard (Progress T π) :=
  match head with
  | none => .ok progress
  | some _ => do
      let nodes ← progress.depot.memory.gather head
      return progress.remark (.remaining nodes.values)

/-- Releases the editor's node, writes down what is left of the list, and discards it. -/
def leave (i : Fin T.size) (editor : Editor) (progress : Progress T π) :
    Except Hazard (Outcome T π) := do
  match ← editor.release progress.depot with
  | (.error fault, head, depot) => giveUp (.fault fault) head.toList { progress with depot }
  | (.ok value, head, depot) =>
      let live := (depot.store.ledger i).liveCount
      let released := Progress.remark (.released value live) { progress with depot }
      let remarked ← remarkRemaining head released
      discarding head remarked fun progress =>
        let ledger := progress.depot.store.ledger i
        (progress.remark (.finished ledger.liveCount ledger.releases)).ended (.ok ())

/-- Goes to the third node of a list and leaves the list there. A list that ends before is
discarded where it ends. -/
def tour (i : Fin T.size) (head : Option Nat) (progress : Progress T π) :
    Except Hazard (Outcome T π) := do
  let memory := progress.depot.memory
  let some editor := Editor.ofLink? head | discarding head progress (·.ended (.ok ()))
  let progress := progress.remark (.bound (← editor.record memory).value)
  let some editor ← editor.advance? memory | discarding head progress (·.ended (.ok ()))
  let progress := progress.remark (.advanced (← editor.record memory).value)
  let some editor ← editor.advance? memory | discarding head progress (·.ended (.ok ()))
  let record ← editor.record memory
  leave i editor (progress.remark (.advancedTo record.value record.next.isNone))

def run (i : Fin T.size) (depot : Depot T π) : Except Hazard (Outcome T π) :=
  withNode i 1 [] (.start depot) fun one progress =>
    withNode i 2 [one] progress fun two progress =>
      withNode i 3 [two, one] progress fun three progress => do
        -- The records are new, so nothing is cut off by linking them.
        let (_, memory) ← progress.depot.memory.relink three none
        let (_, memory) ← memory.relink two (some three)
        let (_, memory) ← memory.relink one (some two)
        tour i (some one) { progress with depot := { progress.depot with memory } }

/-- Walkthroughs one after the other on the same ledger, whether or not they succeed. -/
def runs (i : Fin T.size) : Nat → Depot T π → Except Hazard (List (Outcome T π))
  | 0, _ => .ok []
  | count + 1, depot => do
      let outcome ← run i depot
      return outcome :: (← runs i count outcome.depot)

end Walkthrough

end ChainLedger
