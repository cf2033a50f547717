import ChainLedger.Cursor
import ChainLedger.Text.Block
import ChainLedger.Zipper

set_option autoImplicit false

namespace ChainLedger

def renderValues (style : Style) (name : String) (values : List Int64) : String :=
  (Block.list style name (values.map fun v => [style.value v])).toString

def renderValue (style : Style) (name : String) (value : Int64) : String :=
  (Block.tuple style name [[style.value value]]).toString

variable {T : Layering}

def Node.block (style : Style) (node : Node T) : Block :=
  .tuple style "Node" [[style.value node.value]]

/-- A node shows its own value, and nothing of what is linked behind it. -/
def Node.render (style : Style) (node : Node T) : String :=
  (node.block style).toString

/-- A loose tail shows its first node, if it has one. -/
def Tail.render (style : Style) (tail : Tail T) : String :=
  (Block.option style (tail.head?.map (Node.block style))).toString

def Cursor.render (style : Style) (cursor : Cursor T) : String :=
  renderValue style "Cursor" cursor.value

def Zipper.render (style : Style) (zipper : Zipper T) : String :=
  renderValue style "CursorMut" zipper.value

def Chain.render (style : Style) (chain : Chain T) : String :=
  renderValues style "Chain " chain.values

def Ledger.render (style : Style) (ledger : Ledger) : String :=
  (Block.record style "Ledger" [
    ("live", [style.count ledger.liveCount]),
    ("allocations", [style.count ledger.allocations]),
    ("releases", [style.count ledger.releases]),
    ("budget", .option style (ledger.budget.map fun n => [style.count n]))]).toString

end ChainLedger
