import ChainLedger.Chain
import ChainLedger.Memory

set_option autoImplicit false

namespace ChainLedger

structure Depot (T : Layering) (π : Type) where
  store : Store T π
  memory : Memory T

namespace Depot

variable {T : Layering} {π : Type} [Parent π]

def allocate (demand : Demand) (owner : Handle T) (value : Int64) (depot : Depot T π) :
    Except Hazard (Except Failure Nat × Depot T π) :=
  match Node.allocate demand owner value depot.store with
  | (.error failure, store) => .ok (.error failure, { depot with store })
  | (.ok node, store) =>
      match depot.memory.get? node.addr with
      | some _ => .error (.overwrite node.addr)
      | none => .ok (.ok node.addr, ⟨store, depot.memory.write node.addr ⟨value, none, owner⟩⟩)

def free (addr : Nat) (depot : Depot T π) :
    Except Hazard (Option Fault × Record T × Depot T π) := do
  let record ← depot.memory.read addr
  match (record.node addr).free depot.store with
  | (fault, store) => return (fault, record, ⟨store, depot.memory.erase addr⟩)

/-- Frees every node behind a link and keeps the first fault, `first` being one found before. -/
def discardAfter (first : Option Fault) (link : Option Nat) (depot : Depot T π) :
    Except Hazard (Option Fault × Depot T π) :=
  match link with
  | none => .ok (first, depot)
  | some addr =>
      match found : depot.memory.get? addr with
      | none => .error (.dangling addr)
      | some record =>
          have _smaller := Memory.size_erase_lt found
          match (record.node addr).free depot.store with
          | (fault, store) =>
              discardAfter (first.or fault) record.next ⟨store, depot.memory.erase addr⟩
termination_by depot.memory.size

def discard (link : Option Nat) (depot : Depot T π) : Except Hazard (Option Fault × Depot T π) :=
  discardAfter none link depot

/-- Frees the node at an address and answers with the link behind it. On a fault that link has no
owner left, and what is behind it is discarded. -/
def releaseHead (addr : Nat) (depot : Depot T π) :
    Except Hazard (Except Fault (Option Nat) × Depot T π) := do
  match ← depot.free addr with
  | (none, record, depot) => return (.ok record.next, depot)
  | (some fault, record, depot) =>
      let (_, depot) ← depot.discard record.next
      return (.error fault, depot)

def pushOnto (demand : Demand) (owner : Handle T) (value : Int64) (head : Option Nat)
    (depot : Depot T π) : Except Hazard (Except Failure (Option Nat) × Depot T π) := do
  match ← depot.allocate demand owner value with
  | (.error failure, depot) => return (.error failure, depot)
  | (.ok addr, depot) =>
      let (_, memory) ← depot.memory.relink addr head
      return (.ok (some addr), { depot with memory })

/-- Links a node in front of a list for each value, the last value being the first in `pending`;
`built` counts those already there. A refusal that is reported, like a fault, discards them. -/
def buildOnto (demand : Demand) (owner : Handle T) (total : Nat) :
    List Int64 → Nat → Option Nat → Depot T π →
      Except Hazard (Except Failure (Option Nat) × Depot T π)
  | [], _, head, depot => .ok (.ok head, depot)
  | value :: pending, built, head, depot => do
      match ← depot.pushOnto demand owner value head with
      | (.ok head, depot) => buildOnto demand owner total pending (built + 1) head depot
      | (.error .refused, depot) =>
          match ← ({ depot with store := depot.store.emit (.buildAbandoned built total) }).discard
            head with
          | (none, depot) => return (.error .refused, depot)
          | (some fault, depot) => return (.error (.fault fault), depot)
      | (.error (.fault fault), depot) =>
          let (_, depot) ← depot.discard head
          return (.error (.fault fault), depot)
      | (.error (.aborted layout), depot) => return (.error (.aborted layout), depot)

def build (demand : Demand) (owner : Handle T) (values : List Int64) (depot : Depot T π) :
    Except Hazard (Except Failure (Option Nat) × Depot T π) :=
  buildOnto demand owner values.length values.reverse 0 none depot

end Depot

end ChainLedger
