import ChainLedger.Layout

set_option autoImplicit false

namespace ChainLedger

/-- A request has no room. There is only one such answer, so any two are equal. -/
structure Refusal where
deriving DecidableEq

namespace Refusal

def name : String := "AllocError"

def message : String := "memory allocation failed"

end Refusal

/-- A rule of ownership that a ledger found broken. -/
inductive Fault where
  /-- A block was released that the ledger does not hold. -/
  | notLive (addr : Nat)
  /-- A block was released with another layout than the one it was allocated with. -/
  | layoutMismatch (addr released allocated : Nat)
  /-- The level below handed out a block that the ledger already holds. -/
  | liveBlockReturned (addr : Nat)
deriving DecidableEq

/-- An address as it stands in a message: lower-case hexadecimal. -/
def hexAddress (addr : Nat) : String :=
  "0x" ++ String.ofList (Nat.toDigits 16 addr)

def Fault.message : Fault → String
  | .notLive addr => "oxlist: released block " ++ hexAddress addr ++ " which is not live"
  | .layoutMismatch addr released allocated =>
      "oxlist: block " ++ hexAddress addr ++ " released with size " ++ toString released ++
        " but allocated with size " ++ toString allocated
  | .liveBlockReturned addr => "oxlist: parent allocator returned live block " ++ hexAddress addr

/-- How an allocating operation ends when it has no result. -/
inductive Failure where
  /-- There was no room, and the caller is told so. -/
  | refused
  /-- A ledger found a broken rule. -/
  | fault (cause : Fault)
  /-- There was no room for a block that the caller could not do without: the run ends. -/
  | aborted (layout : Layout)
deriving DecidableEq

end ChainLedger
