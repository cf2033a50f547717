import ChainLedger.Editor
import ChainLedger.Session.Register
import ChainLedger.Session.Reply

set_option autoImplicit false

namespace ChainLedger

inductive Holder (T : Layering) where
  | loose (first : Option Nat)
  | chain (first : Option Nat) (owner : Handle T)
deriving DecidableEq

namespace Holder

variable {T : Layering}

def first : Holder T → Option Nat
  | loose first => first
  | chain first _ => first

/-- The same kind of holder with another list. -/
def withFirst (first : Option Nat) : Holder T → Holder T
  | loose _ => loose first
  | chain _ owner => chain first owner

def kind : Holder T → String
  | loose _ => "slot"
  | chain .. => "chain"

end Holder

structure Machine (T : Layering) (π : Type) where
  depot : Depot T π
  holders : Directory (Holder T)

namespace Machine

variable {T : Layering} {π : Type}

def opened (store : Store T π) : Machine T π :=
  ⟨⟨store, .empty⟩, .empty⟩

def store (machine : Machine T π) : Store T π :=
  machine.depot.store

def memory (machine : Machine T π) : Memory T :=
  machine.depot.memory

def withStore (machine : Machine T π) (store : Store T π) : Machine T π :=
  { machine with depot := { machine.depot with store } }

def first (machine : Machine T π) (name : String) : Option Nat :=
  match machine.holders.get? name with
  | none => none
  | some holder => holder.first

/-- Replaces the link under a name. The holder keeps its kind; a new one is loose. -/
def setFirst (machine : Machine T π) (name : String) (first : Option Nat) : Machine T π :=
  let holder :=
    match machine.holders.get? name with
    | none => .loose first
    | some held => held.withFirst first
  { machine with holders := machine.holders.put name holder }

/-- Removes a holder, handing on its link. -/
def take (machine : Machine T π) (name : String) : Option Nat × Machine T π :=
  (machine.first name, { machine with holders := machine.holders.erase name })

def take? (machine : Machine T π) : Option String → Option Nat × Machine T π
  | none => (none, machine)
  | some name => machine.take name

/-- Puts another link behind the record at an address and hands back the one that stood there. -/
def relink (machine : Machine T π) (addr : Nat) (link : Option Nat) :
    Except Hazard (Option Nat × Machine T π) := do
  let (cut, memory) ← machine.memory.relink addr link
  return (cut, { machine with depot := { machine.depot with memory } })

variable [Parent π]

/-- Discards the nodes behind a link that no holder has. -/
def discard (machine : Machine T π) (link : Option Nat) :
    Except Hazard (Option Fault × Machine T π) := do
  let (fault, depot) ← machine.depot.discard link
  return (fault, { machine with depot })

/-- Sets a holder. The old list is discarded once the new one is in place. -/
def put (machine : Machine T π) (name : String) (holder : Holder T) :
    Except Hazard (Option Fault × Machine T π) :=
  ({ machine with holders := machine.holders.put name holder }).discard (machine.first name)

/-- Stores a loose list under a name, or discards it if none is given. -/
def dispose (machine : Machine T π) (target : Option String) (link : Option Nat) :
    Except Hazard (Option Fault × Machine T π) :=
  match target with
  | none => machine.discard link
  | some name => machine.put name (.loose link)

/-- Stores loose lists under names, one after the other, and keeps the first fault. -/
def putAll : List (String × Option Nat) → Machine T π →
    Except Hazard (Option Fault × Machine T π)
  | [], machine => .ok (none, machine)
  | (name, link) :: rest, machine => do
      let (fault, machine) ← machine.put name (.loose link)
      let (later, machine) ← putAll rest machine
      return (fault.or later, machine)

def conclude (reply : Reply T) : Option Fault × Machine T π → Reply T × Machine T π
  | (fault, machine) => (reply.orFault fault, machine)

end Machine

end ChainLedger
