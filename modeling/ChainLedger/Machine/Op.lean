import ChainLedger.Machine.Look
import ChainLedger.Machine.Walk
import ChainLedger.Session.Op

set_option autoImplicit false

namespace ChainLedger

namespace Machine

variable {T : Layering} {π : Type}

def info (machine : Machine T π) (name : String) : Except Hazard (Reply T) := do
  match machine.holders.get? name with
  | some (.chain first owner) =>
      let nodes ← machine.memory.gather first
      let (head, _) ← machine.memory.next first
      let chain : Chain T := ⟨nodes, owner⟩
      return .chain ⟨owner, head, chain.digest, first.isNone, chain.length⟩
  | _ => return .problem .noChain

def inspect (machine : Machine T π) (name : String) (position : Nat) :
    Except Hazard (Reply T) := do
  match ← machine.memory.follow position (machine.first name) with
  | none => return .problem .noNode
  | some addr =>
      let record ← machine.memory.read addr
      let (next, _) ← machine.memory.next record.next
      return .answer (.node ⟨addr, record.owner, next, record.value⟩)

def values (machine : Machine T π) (name : String) : Except Hazard (Reply T) := do
  let nodes ← machine.memory.gather (machine.first name)
  return .answer (.values (Tail.values nodes))

/-- Shows a holder, or the node at a position in it. What is to be shown is looked up before the
style is asked for. -/
def render (machine : Machine T π) (name : String) (position : Option Nat)
    (style : Option Style) : Except Hazard (Reply T) := do
  let shown (text : Style → String) : Reply T :=
    match style with
    | none => .problem .badInput
    | some style => .answer (.text (text style))
  match position with
  | some position =>
      match ← machine.memory.follow position (machine.first name) with
      | none => return .problem .noNode
      | some addr =>
          let record ← machine.memory.read addr
          return shown fun style => (record.node addr).render style
  | none =>
      let nodes ← machine.memory.gather (machine.first name)
      match machine.holders.get? name with
      | some (.chain _ owner) =>
          return shown fun style => (⟨nodes, owner⟩ : Chain T).render style
      | _ => return shown fun style => Tail.render style nodes

/-- Whether a position is the front of a chain, where there is a place even without a node. -/
def isFrontOfChain (machine : Machine T π) (name : String) (position : Nat) : Bool :=
  match position, machine.holders.get? name with
  | 0, some (.chain ..) => true
  | _, _ => false

def stream (machine : Machine T π) (name : String) (position : Nat)
    (steps : Option (List StreamStep)) : Except Hazard (Reply T) := do
  let link ← machine.memory.follow position (machine.first name)
  if link.isNone && !machine.isFrontOfChain name position then
    return .problem .noNode
  else
    match steps with
    | none => return .problem .badInput
    | some steps => return .answers (← machine.memory.stream link steps)

def cursor (machine : Machine T π) (name : String) (position : Nat)
    (steps : Option (List CursorStep)) : Except Hazard (Reply T) := do
  match ← machine.memory.follow position (machine.first name) with
  | none =>
      if machine.isFrontOfChain name position then return .answer .nothing
      else return .problem .noNode
  | some addr =>
      match steps with
      | none => return .problem .badInput
      | some steps =>
          match ← machine.memory.look addr addr steps with
          | .ok answers => return .answers answers
          | .error problem => return .problem problem

variable [Parent π]

def node (machine : Machine T π) (target : String) (demand : Demand) (owner : Handle T)
    (value : Int64) : Except Hazard (Reply T × Machine T π) := do
  match ← machine.depot.allocate demand owner value with
  | (.ok addr, depot) =>
      return conclude (.answer (.value value))
        (← ({ machine with depot }).put target (.loose (some addr)))
  | (.error failure, depot) => return (.failed failure, { machine with depot })

def chain (machine : Machine T π) (target : String) (demand : Demand) (owner : Handle T)
    (values : List Int64) : Except Hazard (Reply T × Machine T π) := do
  match ← machine.depot.build demand owner values with
  | (.ok first, depot) =>
      let nodes ← depot.memory.gather first
      return conclude (.answer (.count nodes.length))
        (← ({ machine with depot }).put target (.chain first owner))
  | (.error failure, depot) => return (.failed failure, { machine with depot })

def empty (machine : Machine T π) (target : String) (owner : Handle T) :
    Except Hazard (Reply T × Machine T π) := do
  return conclude (.answer (.count 0)) (← machine.put target (.chain none owner))

/-- A holder cannot be linked into itself, and there must be a node to link behind. -/
def link (machine : Machine T π) (name : String) (position : Nat)
    (source target : Option String) : Except Hazard (Reply T × Machine T π) := do
  if source = some name then
    return (.problem .noNode, machine)
  else
    let first := machine.first name
    match ← machine.memory.follow position first with
    | none => return (.problem .noNode, machine)
    | some addr =>
        let (taken, machine) := machine.take? source
        let (cut, machine) ← machine.relink addr taken
        let tail ← machine.memory.gather cut
        return conclude (.answer (.ofTail tail))
          (← (machine.setFirst name first).dispose target cut)

def unlink (machine : Machine T π) (name : String) (position : Nat) (target : Option String) :
    Except Hazard (Reply T × Machine T π) := do
  let first := machine.first name
  match ← machine.memory.follow position first with
  | none => return (.problem .noNode, machine)
  | some addr =>
      let (cut, machine) ← machine.relink addr none
      let tail ← machine.memory.gather cut
      return conclude (.answer (.ofTail tail))
        (← (machine.setFirst name first).dispose target cut)

/-- The holder is gone afterwards, also if it had no node. -/
def release (machine : Machine T π) (name : String) (target : Option String) :
    Except Hazard (Reply T × Machine T π) := do
  match machine.take name with
  | (none, machine) => return (.problem .noNode, machine)
  | (some addr, machine) =>
      match ← machine.depot.releaseHead addr with
      | (.ok rest, depot) =>
          let tail ← depot.memory.gather rest
          return conclude (.answer (.ofTail tail))
            (← ({ machine with depot }).dispose target rest)
      | (.error fault, depot) => return (.failed (.fault fault), { machine with depot })

/-- Moves a list to another name. Without that name it is discarded. -/
def move (machine : Machine T π) (name : String) (target : Option String) :
    Except Hazard (Reply T × Machine T π) := do
  match machine.take name with
  | (link, machine) =>
      match target with
      | some target =>
          let tail ← machine.memory.gather link
          return conclude (.answer (.ofTail tail)) (← machine.put target (.loose link))
      | none => return conclude (.problem .badInput) (← machine.discard link)

/-- Removes a holder with its list, and tells whether there was one. -/
def drop (machine : Machine T π) (name : String) :
    Except Hazard (Reply T × Machine T π) := do
  let existed := (machine.holders.get? name).isSome
  match machine.take name with
  | (link, machine) => return conclude (.answer (.truth existed)) (← machine.discard link)

def intoHead (machine : Machine T π) (name : String) (target : Option String) :
    Except Hazard (Reply T × Machine T π) := do
  match machine.holders.get? name with
  | some (.chain ..) =>
      match machine.take name with
      | (link, machine) =>
          let tail ← machine.memory.gather link
          return conclude (.answer (.ofTail tail)) (← machine.dispose target link)
  | _ => return (.problem .noChain, machine)

def pushFront (machine : Machine T π) (name : String) (demand : Demand) (value : Int64) :
    Except Hazard (Reply T × Machine T π) := do
  match machine.holders.get? name with
  | some (.chain first owner) =>
      match ← machine.depot.pushOnto demand owner value first with
      | (.ok first, depot) =>
          return (.answer .done, ⟨depot, machine.holders.put name (.chain first owner)⟩)
      | (.error failure, depot) =>
          return (.failed failure, ⟨depot, machine.holders.put name (.chain first owner)⟩)
  | _ => return (.problem .noChain, machine)

def popFront (machine : Machine T π) (name : String) :
    Except Hazard (Reply T × Machine T π) := do
  match machine.holders.get? name with
  | some (.chain first owner) =>
      match Editor.ofLink? first with
      | none =>
          return (.answer .nothing,
            { machine with holders := machine.holders.put name (.chain none owner) })
      | some editor =>
          match ← editor.release machine.depot with
          | (.ok value, left, depot) =>
              return (.answer (.value value),
                ⟨depot, machine.holders.put name (.chain left owner)⟩)
          | (.error fault, left, depot) =>
              return (.failed (.fault fault),
                ⟨depot, machine.holders.put name (.chain left owner)⟩)
  | _ => return (.problem .noChain, machine)

/-- A direct request to a ledger, past all holders. -/
def allocate (machine : Machine T π) (i : Fin T.size) (layout : Layout) :
    Reply T × Machine T π :=
  match machine.store.allocate (some i) layout with
  | (.ok addr, store) => (.block addr layout.size, machine.withStore store)
  | (.error failure, store) => (.failed failure, machine.withStore store)

/-- A direct return to a ledger. The record that stands in the block stays readable. -/
def deallocate (machine : Machine T π) (i : Fin T.size) (addr : Nat) (layout : Layout) :
    Reply T × Machine T π :=
  match machine.store.deallocate (some i) addr layout with
  | (fault, store) => (Reply.orFault (.answer .done) fault, machine.withStore store)

def exchange (machine : Machine T π) (i : Fin T.size) (addr : Nat) (held wanted : Layout) :
    Reply T × Machine T π :=
  match machine.store.exchange (some i) addr held wanted with
  | (.ok moved, store) => (.block moved wanted.size, machine.withStore store)
  | (.error failure, store) => (.failed failure, machine.withStore store)

def perform (machine : Machine T π) : Op T π → Except Hazard (Reply T × Machine T π)
  | .node target demand owner value => machine.node target demand owner value
  | .chain target demand owner values => machine.chain target demand owner values
  | .empty target owner => machine.empty target owner
  | .inspect name position => do return (← machine.inspect name position, machine)
  | .link name position source target => machine.link name position source target
  | .unlink name position target => machine.unlink name position target
  | .release name target => machine.release name target
  | .move name target => machine.move name target
  | .drop name => machine.drop name
  | .intoHead name target => machine.intoHead name target
  | .pushFront name demand value => machine.pushFront name demand value
  | .popFront name => machine.popFront name
  | .info name => do return (← machine.info name, machine)
  | .values name => do return (← machine.values name, machine)
  | .render name position style => do return (← machine.render name position style, machine)
  | .stream name position steps => do return (← machine.stream name position steps, machine)
  | .cursor name position steps => do return (← machine.cursor name position steps, machine)
  | .walk name steps => machine.walk name steps
  | .setBudget i budget =>
      .ok (.answer (.ofCount? budget), machine.withStore (machine.store.setBudget i budget))
  | .ledger i => .ok (.ledger (.ofStore machine.store i), machine)
  | .renderLedger i style => .ok (.answer (.text ((machine.store.ledger i).render style)), machine)
  | .isLive i addr => .ok (.answer (.truth ((machine.store.ledger i).isLive addr)), machine)
  | .allocate i layout => .ok (machine.allocate i layout)
  | .deallocate i addr layout => .ok (machine.deallocate i addr layout)
  | .exchange i addr held wanted => .ok (machine.exchange i addr held wanted)
  | .configure setting =>
      .ok (.answer .done, machine.withStore (machine.store.configure setting))

end Machine

end ChainLedger
