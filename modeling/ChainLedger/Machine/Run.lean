import ChainLedger.Machine.Op
import ChainLedger.Session.Run

set_option autoImplicit false

namespace ChainLedger

namespace Machine

variable {T : Layering} {π : Type} [Parent π]

/-- Performs operations in order until they are used up or one of them aborts. -/
def performAll : List (Op T π) → Machine T π → Except Hazard (List (Reply T) × Machine T π)
  | [], machine => .ok ([], machine)
  | op :: ops, machine => do
      let (reply, machine) ← machine.perform op
      if reply.isAbort then
        return ([reply], machine)
      else
        let (replies, machine) ← performAll ops machine
        return (reply :: replies, machine)

def clearEvents (machine : Machine T π) : Machine T π :=
  machine.withStore machine.store.clearEvents

/-- Serves a request, which is an operation or the problem that it is not one. -/
def serve (machine : Machine T π) :
    Except Problem (Op T π) → Except Hazard (Reply T × Machine T π)
  | .error problem => .ok (.problem problem, machine)
  | .ok op => machine.perform op

/-- Gives up holders one after the other. -/
def close : List (String × Holder T) → Depot T π → Except Hazard (List (Closing T π))
  | [], _ => .ok []
  | (name, holder) :: rest, depot => do
      let nodes ← depot.memory.gather holder.first
      let (fault, depot) ←
        ({ depot with store := depot.store.clearEvents }).discard holder.first
      return ⟨name, holder.kind, Tail.values nodes, fault, depot.store.events, depot.store⟩ ::
        (← close rest depot)

/-- Serves requests in order, each with events of its own, until they are used up or the run is
aborted. A run that comes to its end gives up its holders in ascending order of their names. -/
def run : List (Except Problem (Op T π)) → Machine T π → Except Hazard (Report T π)
  | [], machine => do
      let closings ← close machine.holders.ascending machine.depot
      return ⟨[], some closings⟩
  | request :: requests, machine => do
      let (reply, after) ← machine.clearEvents.serve request
      let step := ⟨reply, after.store.events, after.store⟩
      if reply.isAbort then
        return ⟨[step], none⟩
      else
        let ⟨steps, closings⟩ ← run requests after
        return ⟨step :: steps, closings⟩

end Machine

end ChainLedger
