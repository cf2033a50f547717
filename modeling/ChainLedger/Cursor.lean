import ChainLedger.Chain

set_option autoImplicit false

namespace ChainLedger

structure Cursor (T : Layering) where
  node : Node T
  rest : Tail T
deriving DecidableEq

namespace Cursor

variable {T : Layering}

def ofTail? : Tail T → Option (Cursor T)
  | [] => none
  | node :: rest => some ⟨node, rest⟩

def nodes (cursor : Cursor T) : Tail T :=
  cursor.node :: cursor.rest

def value (cursor : Cursor T) : Int64 :=
  cursor.node.value

def isTerminal (cursor : Cursor T) : Bool :=
  cursor.rest.isEmpty

def advance? (cursor : Cursor T) : Option (Cursor T) :=
  ofTail? cursor.rest

/-- Two cursors in one list stand at the same node if equally many nodes follow. -/
def isAt (cursor other : Cursor T) : Bool :=
  cursor.rest.length == other.rest.length

theorem nodes_of_ofTail? {tail : Tail T} {cursor : Cursor T} (found : ofTail? tail = some cursor) :
    cursor.nodes = tail := by
  cases tail with
  | nil => cases found
  | cons node rest => cases found; rfl

theorem nodes_of_advance? {cursor moved : Cursor T} (found : cursor.advance? = some moved) :
    moved.nodes = cursor.rest :=
  nodes_of_ofTail? found

end Cursor

end ChainLedger
