import ChainLedger.Layout

set_option autoImplicit false

namespace ChainLedger

inductive Level where
  | trace
  | debug
  | info
  | warn
deriving DecidableEq

def Level.name : Level → String
  | .trace => "TRACE"
  | .debug => "DEBUG"
  | .info => "INFO"
  | .warn => "WARN"

inductive FieldValue where
  | integer (value : Int)
  | truth (value : Bool)
  | text (value : String)
deriving DecidableEq

abbrev Fields := List (String × FieldValue)

inductive Event where
  /-- A node's record was allocated and filled. -/
  | nodeAllocated (value : Int64) (addr : Nat)
  /-- A node's record is about to be given back. -/
  | nodeReleased (value : Int64) (addr : Nat)
  /-- A ledger turned a request away because its budget is spent. -/
  | requestRefused (layout : Layout)
  /-- A chain of `total` values could not be finished; its `built` nodes are released next. -/
  | buildAbandoned (built total : Nat)
deriving DecidableEq

namespace Event

def level : Event → Level
  | nodeAllocated .. => .trace
  | nodeReleased .. => .trace
  | requestRefused .. => .debug
  | buildAbandoned .. => .warn

def message : Event → String
  | nodeAllocated .. => "node allocated"
  | nodeReleased .. => "node released"
  | requestRefused .. => "allocation refused, budget spent"
  | buildAbandoned .. => "chain construction aborted"

def fields : Event → Fields
  | nodeAllocated value addr => [("addr", .integer addr), ("value", .integer value.toInt)]
  | nodeReleased value addr => [("addr", .integer addr), ("value", .integer value.toInt)]
  | requestRefused layout => [("align", .integer layout.align), ("size", .integer layout.size)]
  | buildAbandoned built total => [("built", .integer built), ("total", .integer total)]

end Event

end ChainLedger
