import ChainLedger.Chain
import ChainLedger.Directory

set_option autoImplicit false

namespace ChainLedger

inductive Register (T : Layering) where
  | loose (tail : Tail T)
  | chain (chain : Chain T)
deriving DecidableEq

namespace Register

variable {T : Layering}

def nodes : Register T → Tail T
  | loose tail => tail
  | chain held => held.nodes

def withNodes (nodes : Tail T) : Register T → Register T
  | loose _ => loose nodes
  | chain held => chain { held with nodes }

def kind : Register T → String
  | loose _ => "slot"
  | chain _ => "chain"

@[simp] theorem nodes_withNodes (nodes : Tail T) (register : Register T) :
    (register.withNodes nodes).nodes = nodes := by
  cases register <;> rfl

end Register

abbrev Registers (T : Layering) : Type :=
  Directory (Register T)

/-- The nodes under a name; a name without a register owns none. -/
def Registers.nodes {T : Layering} (name : String) (registers : Registers T) : Tail T :=
  match registers.get? name with
  | none => []
  | some register => register.nodes

end ChainLedger
