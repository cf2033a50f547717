import ChainLedger.Depot
import ChainLedger.Parent.Arena
import ChainLedger.Parent.Heap

set_option autoImplicit false

namespace ChainLedger

/-- Adds the values behind a link to `sum`, front to back, wrapping around at 64 bits. Records that
have been added are set aside, as they are when a list is gathered. -/
def Memory.addUp {T : Layering} (sum : Int64) (link : Option Nat) (memory : Memory T) :
    Except Hazard Int64 :=
  match link with
  | none => .ok sum
  | some addr =>
      match found : memory.get? addr with
      | none => .error (.dangling addr)
      | some record =>
          have _smaller := size_erase_lt found
          addUp (sum + record.value) record.next (memory.erase addr)
termination_by memory.size

/-- Pushes a node in front of a list for each value in turn, so that the last one ends up in front.
The first failure stops it and leaves the list as it is. -/
def Depot.pushEach {T : Layering} {π : Type} [Parent π] (demand : Demand) (owner : Handle T) :
    List Int64 → Option Nat → Depot T π →
      Except Hazard (Except Failure Unit × Option Nat × Depot T π)
  | [], head, depot => .ok (.ok (), head, depot)
  | value :: values, head, depot => do
      match ← depot.pushOnto demand owner value head with
      | (.ok head, depot) => pushEach demand owner values head depot
      | (.error failure, depot) => return (.error failure, head, depot)

namespace Summation

variable {π : Type} [Parent π]

def pile (count : Nat) (parent : π) :
    Except Hazard (Except Failure Unit × Option Nat × Depot .bare π) :=
  Depot.pushEach .insist none ((List.range count).map Int64.ofNat) none
    ⟨.opened (fun _ => none) parent, .empty⟩

def run (count : Nat) (parent : π) : Except Hazard (Except Failure Int64 × Depot .bare π) := do
  match ← pile count parent with
  | (.ok (), head, depot) =>
      let sum ← depot.memory.addUp 0 head
      let (fault, depot) ← depot.discard head
      return (fault.elim (.ok sum) fun fault => .error (.fault fault), depot)
  -- A run that is aborted ends where it is; any other failure discards the list on the way out.
  | (.error (.aborted layout), _, depot) => return (.error (.aborted layout), depot)
  | (.error failure, head, depot) =>
      let (_, depot) ← depot.discard head
      return (.error failure, depot)

def overHeap (count : Nat) : Except Hazard (Except Failure Int64 × Depot .bare Heap) :=
  run count Heap.fresh

def overArena (count : Nat) : Except Hazard (Except Failure Int64 × Depot .bare Arena) :=
  run count (Arena.ofCapacity (24 * count))

end Summation

end ChainLedger
