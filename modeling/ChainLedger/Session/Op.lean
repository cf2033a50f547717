import ChainLedger.Parent
import ChainLedger.Session.Look
import ChainLedger.Session.Walk

set_option autoImplicit false

namespace ChainLedger

/-- One operation. Registers are named by strings, and a node in a register by its position. -/
inductive Op (T : Layering) (π : Type) [Parent π] where
  /-- Allocates a node and stores it. -/
  | node (target : String) (demand : Demand) (owner : Handle T) (value : Int64)
  /-- Builds a chain and stores it. -/
  | chain (target : String) (demand : Demand) (owner : Handle T) (values : List Int64)
  /-- Stores a chain without nodes. -/
  | empty (target : String) (owner : Handle T)
  | inspect (name : String) (position : Nat)
  /-- Links the nodes of one register behind a node; the nodes that stood there are stored or
  discarded. -/
  | link (name : String) (position : Nat) (source target : Option String)
  /-- Detaches the nodes behind a node and stores or discards them. -/
  | unlink (name : String) (position : Nat) (target : Option String)
  /-- Frees the first node of a register and stores or discards the others. -/
  | release (name : String) (target : Option String)
  | move (name : String) (target : Option String)
  | drop (name : String)
  /-- Turns a chain into its loose nodes. -/
  | intoHead (name : String) (target : Option String)
  | pushFront (name : String) (demand : Demand) (value : Int64)
  | popFront (name : String)
  | info (name : String)
  | values (name : String)
  /-- Shows a register, or the node at a position in it, if the style is one. -/
  | render (name : String) (position : Option Nat) (style : Option Style)
  | stream (name : String) (position : Nat) (steps : Option (List StreamStep))
  | cursor (name : String) (position : Nat) (steps : Option (List CursorStep))
  | walk (name : String) (steps : List WalkStep)
  | setBudget (ledger : Fin T.size) (budget : Option Nat)
  | ledger (ledger : Fin T.size)
  | renderLedger (ledger : Fin T.size) (style : Style)
  | isLive (ledger : Fin T.size) (addr : Nat)
  | allocate (ledger : Fin T.size) (layout : Layout)
  | deallocate (ledger : Fin T.size) (addr : Nat) (layout : Layout)
  | exchange (ledger : Fin T.size) (addr : Nat) (held wanted : Layout)
  | configure (setting : Parent.Setting π)

def LedgerReport.ofStore {T : Layering} {π : Type} (store : Store T π) (i : Fin T.size) :
    LedgerReport T :=
  let ledger := store.ledger i
  ⟨ledger.allocations, ledger.budget, ledger.liveCount, T.below i, ledger.releases,
    ledger.snapshot⟩

namespace Session

variable {T : Layering} {π : Type}

def info (session : Session T π) (name : String) : Reply T :=
  match session.registers.get? name with
  | some (.chain chain) => .chain (.ofChain chain)
  | _ => .problem .noChain

def inspect (session : Session T π) (name : String) (position : Nat) : Reply T :=
  match (session.nodes name).drop position with
  | [] => .problem .noNode
  | node :: rest => .answer (.node (.ofNode node rest))

/-- Shows a register, or the node at a position in it. What is to be shown is looked up before the
style is asked for. -/
def render (session : Session T π) (name : String) (position : Option Nat)
    (style : Option Style) : Reply T :=
  let shown : Option (Style → String) :=
    match position with
    | some position =>
        (session.nodes name)[position]?.map fun node style => node.render style
    | none =>
        match session.registers.get? name with
        | some (.chain chain) => some fun style => chain.render style
        | _ => some fun style => Tail.render style (session.nodes name)
  match shown, style with
  | none, _ => .problem .noNode
  | some _, none => .problem .badInput
  | some text, some style => .answer (.text (text style))

/-- Whether a position is the front of a chain, where there is a place even without a node. -/
def isFrontOfChain (session : Session T π) (name : String) (position : Nat) : Bool :=
  match position, session.registers.get? name with
  | 0, some (.chain _) => true
  | _, _ => false

def stream (session : Session T π) (name : String) (position : Nat)
    (steps : Option (List StreamStep)) : Reply T :=
  let rest := (session.nodes name).drop position
  if rest.isEmpty && !session.isFrontOfChain name position then
    .problem .noNode
  else
    match steps with
    | none => .problem .badInput
    | some steps => .answers ((ValueStream.ofTail rest).read steps)

def cursor (session : Session T π) (name : String) (position : Nat)
    (steps : Option (List CursorStep)) : Reply T :=
  match Cursor.ofTail? ((session.nodes name).drop position) with
  | none =>
      if session.isFrontOfChain name position then .answer .nothing else .problem .noNode
  | some cursor =>
      match steps with
      | none => .problem .badInput
      | some steps =>
          match Cursor.look cursor cursor steps with
          | .ok answers => .answers answers
          | .error problem => .problem problem

variable [Parent π]

def node (session : Session T π) (target : String) (demand : Demand) (owner : Handle T)
    (value : Int64) : Reply T × Session T π :=
  match Node.allocate demand owner value session.store with
  | (.ok node, store) =>
      conclude (.answer (.value node.value)) ({ session with store }.put target (.loose [node]))
  | (.error failure, store) => (.failed failure, { session with store })

def chain (session : Session T π) (target : String) (demand : Demand) (owner : Handle T)
    (values : List Int64) : Reply T × Session T π :=
  match Chain.build demand owner values session.store with
  | (.ok chain, store) =>
      conclude (.answer (.count chain.length)) ({ session with store }.put target (.chain chain))
  | (.error failure, store) => (.failed failure, { session with store })

def empty (session : Session T π) (target : String) (owner : Handle T) :
    Reply T × Session T π :=
  conclude (.answer (.count 0)) (session.put target (.chain (.empty owner)))

/-- A register cannot be linked into itself, and there must be a node to link behind. -/
def link (session : Session T π) (name : String) (position : Nat)
    (source target : Option String) : Reply T × Session T π :=
  if source = some name then
    (.problem .noNode, session)
  else
    match Tail.cutAfter? position (session.nodes name) with
    | none => (.problem .noNode, session)
    | some (kept, cut) =>
        match session.take? source with
        | (taken, session) =>
            conclude (.answer (.ofTail cut))
              ((session.setNodes name (kept ++ taken)).dispose target cut)

def unlink (session : Session T π) (name : String) (position : Nat) (target : Option String) :
    Reply T × Session T π :=
  match Tail.cutAfter? position (session.nodes name) with
  | none => (.problem .noNode, session)
  | some (kept, cut) =>
      conclude (.answer (.ofTail cut)) ((session.setNodes name kept).dispose target cut)

/-- The register is gone afterwards, also if it had no node. -/
def release (session : Session T π) (name : String) (target : Option String) :
    Reply T × Session T π :=
  match session.take name with
  | ([], session) => (.problem .noNode, session)
  | (node :: rest, session) =>
      match Tail.releaseHead node rest session.store with
      | (.ok rest, store) =>
          conclude (.answer (.ofTail rest)) ({ session with store }.dispose target rest)
      | (.error fault, store) => (.failed (.fault fault), { session with store })

/-- Moves a register to another name. Without that name its nodes are discarded. -/
def move (session : Session T π) (name : String) (target : Option String) :
    Reply T × Session T π :=
  match session.take name with
  | (tail, session) =>
      match target with
      | some target => conclude (.answer (.ofTail tail)) (session.put target (.loose tail))
      | none => conclude (.problem .badInput) (session.discard tail)

/-- Removes a register with its nodes, and tells whether there was one. -/
def drop (session : Session T π) (name : String) : Reply T × Session T π :=
  let existed := (session.registers.get? name).isSome
  match session.take name with
  | (tail, session) => conclude (.answer (.truth existed)) (session.discard tail)

def intoHead (session : Session T π) (name : String) (target : Option String) :
    Reply T × Session T π :=
  match session.registers.get? name with
  | some (.chain _) =>
      match session.take name with
      | (tail, session) => conclude (.answer (.ofTail tail)) (session.dispose target tail)
  | _ => (.problem .noChain, session)

def pushFront (session : Session T π) (name : String) (demand : Demand) (value : Int64) :
    Reply T × Session T π :=
  match session.registers.get? name with
  | some (.chain chain) =>
      match chain.pushFront demand value session.store with
      | (.ok (), chain, store) =>
          (.answer .done, ⟨store, session.registers.put name (.chain chain)⟩)
      | (.error failure, chain, store) =>
          (.failed failure, ⟨store, session.registers.put name (.chain chain)⟩)
  | _ => (.problem .noChain, session)

def popFront (session : Session T π) (name : String) : Reply T × Session T π :=
  match session.registers.get? name with
  | some (.chain chain) =>
      match chain.popFront session.store with
      | (.ok value, chain, store) =>
          (.answer (.ofValue? value), ⟨store, session.registers.put name (.chain chain)⟩)
      | (.error fault, chain, store) =>
          (.failed (.fault fault), ⟨store, session.registers.put name (.chain chain)⟩)
  | _ => (.problem .noChain, session)

/-- A direct request to a ledger, past all registers. -/
def allocate (session : Session T π) (i : Fin T.size) (layout : Layout) :
    Reply T × Session T π :=
  match session.store.allocate (some i) layout with
  | (.ok addr, store) => (.block addr layout.size, { session with store })
  | (.error failure, store) => (.failed failure, { session with store })

def deallocate (session : Session T π) (i : Fin T.size) (addr : Nat) (layout : Layout) :
    Reply T × Session T π :=
  match session.store.deallocate (some i) addr layout with
  | (fault, store) => (Reply.orFault (.answer .done) fault, { session with store })

def exchange (session : Session T π) (i : Fin T.size) (addr : Nat) (held wanted : Layout) :
    Reply T × Session T π :=
  match session.store.exchange (some i) addr held wanted with
  | (.ok moved, store) => (.block moved wanted.size, { session with store })
  | (.error failure, store) => (.failed failure, { session with store })

def perform (session : Session T π) : Op T π → Reply T × Session T π
  | .node target demand owner value => session.node target demand owner value
  | .chain target demand owner values => session.chain target demand owner values
  | .empty target owner => session.empty target owner
  | .inspect name position => (session.inspect name position, session)
  | .link name position source target => session.link name position source target
  | .unlink name position target => session.unlink name position target
  | .release name target => session.release name target
  | .move name target => session.move name target
  | .drop name => session.drop name
  | .intoHead name target => session.intoHead name target
  | .pushFront name demand value => session.pushFront name demand value
  | .popFront name => session.popFront name
  | .info name => (session.info name, session)
  | .values name => (.answer (.values (Tail.values (session.nodes name))), session)
  | .render name position style => (session.render name position style, session)
  | .stream name position steps => (session.stream name position steps, session)
  | .cursor name position steps => (session.cursor name position steps, session)
  | .walk name steps => session.walk name steps
  | .setBudget i budget =>
      (.answer (.ofCount? budget), { session with store := session.store.setBudget i budget })
  | .ledger i => (.ledger (.ofStore session.store i), session)
  | .renderLedger i style => (.answer (.text ((session.store.ledger i).render style)), session)
  | .isLive i addr => (.answer (.truth ((session.store.ledger i).isLive addr)), session)
  | .allocate i layout => session.allocate i layout
  | .deallocate i addr layout => session.deallocate i addr layout
  | .exchange i addr held wanted => session.exchange i addr held wanted
  | .configure setting =>
      (.answer .done, { session with store := session.store.configure setting })

end Session

end ChainLedger
