import ChainLedger.Session.Register
import ChainLedger.Session.Reply

set_option autoImplicit false

namespace ChainLedger

structure Session (T : Layering) (π : Type) where
  store : Store T π
  registers : Registers T

namespace Session

variable {T : Layering} {π : Type}

def opened (store : Store T π) : Session T π :=
  ⟨store, .empty⟩

def nodes (session : Session T π) (name : String) : Tail T :=
  session.registers.nodes name

/-- Replaces the nodes under a name. The register keeps its kind; a new one is loose. -/
def setNodes (session : Session T π) (name : String) (nodes : Tail T) : Session T π :=
  let register :=
    match session.registers.get? name with
    | none => .loose nodes
    | some held => held.withNodes nodes
  { session with registers := session.registers.put name register }

def take (session : Session T π) (name : String) : Tail T × Session T π :=
  (session.nodes name, { session with registers := session.registers.erase name })

def take? (session : Session T π) : Option String → Tail T × Session T π
  | none => ([], session)
  | some name => session.take name

variable [Parent π]

def discard (session : Session T π) (tail : Tail T) : Option Fault × Session T π :=
  match Tail.discard tail session.store with
  | (fault, store) => (fault, { session with store })

/-- Sets a register. Its old nodes are discarded once the new ones are in place. -/
def put (session : Session T π) (name : String) (register : Register T) :
    Option Fault × Session T π :=
  { session with registers := session.registers.put name register }.discard (session.nodes name)

/-- Stores loose nodes under a name, or discards them if none is given. -/
def dispose (session : Session T π) (target : Option String) (tail : Tail T) :
    Option Fault × Session T π :=
  match target with
  | none => session.discard tail
  | some name => session.put name (.loose tail)

/-- Stores loose nodes under names, one after the other, and keeps the first fault. -/
def putAll : List (String × Tail T) → Session T π → Option Fault × Session T π
  | [], session => (none, session)
  | (name, tail) :: rest, session =>
      match session.put name (.loose tail) with
      | (fault, session) =>
          match putAll rest session with
          | (later, session) => (fault.or later, session)

def conclude (reply : Reply T) : Option Fault × Session T π → Reply T × Session T π
  | (fault, session) => (reply.orFault fault, session)

end Session

end ChainLedger
