import ChainLedger.Chain

set_option autoImplicit false

namespace ChainLedger

/-- Why an operation could not be tried. -/
inductive Problem where
  | badInput
  | noNode
  | noChain
  | noLedger
  | badLayout
deriving DecidableEq

def Problem.name : Problem → String
  | .badInput => "bad_input"
  | .noNode => "no_node"
  | .noChain => "no_chain"
  | .noLedger => "no_ledger"
  | .badLayout => "LayoutError"

structure NodeReport (T : Layering) where
  addr : Nat
  owner : Handle T
  next : Option Int64
  value : Int64
deriving DecidableEq

structure ChainReport (T : Layering) where
  owner : Handle T
  head : Option Int64
  digest : UInt64
  isEmpty : Bool
  length : Nat
deriving DecidableEq

structure LedgerReport (T : Layering) where
  allocations : Nat
  budget : Option Nat
  live : Nat
  below : Handle T
  releases : Nat
  snapshot : List (Nat × Nat)
deriving DecidableEq

variable {T : Layering}

/-- The report on the first of the nodes, if there is one. -/
def NodeReport.ofNode (node : Node T) (rest : Tail T) : NodeReport T :=
  ⟨node.addr, node.owner, rest.head?.map Node.value, node.value⟩

def ChainReport.ofChain (chain : Chain T) : ChainReport T :=
  ⟨chain.owner, chain.head?.map Node.value, chain.digest, chain.isEmpty, chain.length⟩

inductive Answer (T : Layering) where
  | done
  | nothing
  | value (value : Int64)
  | count (count : Nat)
  | truth (truth : Bool)
  | values (values : List Int64)
  | text (text : String)
  | node (report : NodeReport T)
  /-- Where a node came from. -/
  | owner (owner : Handle T)
  /-- A value and the one behind it, if there is one. -/
  | valueAndNext (value : Int64) (next : Option Int64)
  /-- Bounds on the number of values to come. -/
  | bounds (lower : Nat) (upper : Option Nat)
  /-- The step is not one that the operation knows. -/
  | unrecognised
deriving DecidableEq

namespace Answer

def ofValue? : Option Int64 → Answer T
  | none => nothing
  | some v => value v

def ofCount? : Option Nat → Answer T
  | none => nothing
  | some n => count n

def ofTail : Tail T → Answer T
  | [] => nothing
  | first :: rest => values (Tail.values (first :: rest))

end Answer

inductive Reply (T : Layering) where
  | answer (answer : Answer T)
  | answers (answers : List (Answer T))
  | chain (report : ChainReport T)
  | ledger (report : LedgerReport T)
  | block (addr size : Nat)
  | problem (problem : Problem)
  | failed (failure : Failure)
deriving DecidableEq

namespace Reply

/-- A fault that shows up while an operation is being concluded replaces its answer, unless the
operation has failed already. -/
def orFault : Reply T → Option Fault → Reply T
  | reply, none => reply
  | failed failure, some _ => failed failure
  | _, some fault => failed (.fault fault)

/-- Whether the run ends with this reply. -/
def isAbort : Reply T → Bool
  | failed (.aborted _) => true
  | _ => false

end Reply

end ChainLedger
