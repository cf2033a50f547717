import ChainLedger.Session.Op

set_option autoImplicit false

namespace ChainLedger

structure Step (T : Layering) (π : Type) where
  reply : Reply T
  events : List Event
  store : Store T π

/-- How one register was given up at the end of a run. -/
structure Closing (T : Layering) (π : Type) where
  name : String
  kind : String
  values : List Int64
  fault : Option Fault
  events : List Event
  store : Store T π

/-- The steps of a run, and its closings if it was not aborted. -/
structure Report (T : Layering) (π : Type) where
  steps : List (Step T π)
  closings : Option (List (Closing T π))

namespace Session

variable {T : Layering} {π : Type} [Parent π]

/-- Performs operations in order until they are used up or one of them aborts. -/
def performAll : List (Op T π) → Session T π → List (Reply T) × Session T π
  | [], session => ([], session)
  | op :: ops, session =>
      match session.perform op with
      | (reply, session) =>
          if reply.isAbort then
            ([reply], session)
          else
            match performAll ops session with
            | (replies, session) => (reply :: replies, session)

def clearEvents (session : Session T π) : Session T π :=
  { session with store := session.store.clearEvents }

def serve (session : Session T π) : Except Problem (Op T π) → Reply T × Session T π
  | .error problem => (.problem problem, session)
  | .ok op => session.perform op

def close : List (String × Register T) → Store T π → List (Closing T π)
  | [], _ => []
  | (name, register) :: rest, store =>
      match Tail.discard register.nodes store.clearEvents with
      | (fault, store) =>
          ⟨name, register.kind, Tail.values register.nodes, fault, store.events, store⟩ ::
            close rest store

/-- Serves requests in order, each with events of its own, until they are used up or the run is
aborted. A run that comes to its end gives up its registers in ascending order of their names. -/
def run : List (Except Problem (Op T π)) → Session T π → Report T π
  | [], session => ⟨[], some (close session.registers.ascending session.store)⟩
  | request :: requests, session =>
      match session.clearEvents.serve request with
      | (reply, after) =>
          let step := ⟨reply, after.store.events, after.store⟩
          if reply.isAbort then
            ⟨[step], none⟩
          else
            match run requests after with
            | ⟨steps, closings⟩ => ⟨step :: steps, closings⟩

end Session

end ChainLedger
