import ChainLedger.Depot

set_option autoImplicit false

namespace ChainLedger

/-- What can own a node: the head of the list, or the link of a record. -/
inductive Slot where
  | head
  | behind (addr : Nat)
deriving DecidableEq

/-- The link to the first record of the list, and the slot at which the editor stands. -/
structure Editor where
  first : Option Nat
  slot : Slot
deriving DecidableEq

namespace Editor

variable {T : Layering} {π : Type}

def ofLink? : Option Nat → Option Editor
  | none => none
  | some addr => some ⟨some addr, .head⟩

def link (memory : Memory T) (editor : Editor) : Except Hazard (Option Nat) :=
  match editor.slot with
  | .head => .ok editor.first
  | .behind addr => do
      let record ← memory.read addr
      return record.next

/-- The address of the editor's node. The slot stays occupied as long as there is an editor. -/
def addr (memory : Memory T) (editor : Editor) : Except Hazard Nat := do
  match ← editor.link memory with
  | some addr => return addr
  | none => .error .vacant

def setLink (link : Option Nat) (memory : Memory T) (editor : Editor) :
    Except Hazard (Editor × Memory T) :=
  match editor.slot with
  | .head => .ok ({ editor with first := link }, memory)
  | .behind addr => do
      let (_, memory) ← memory.relink addr link
      return (editor, memory)

/-- Moves on to the link of the editor's node; there is no node behind the last one. -/
def advance? (memory : Memory T) (editor : Editor) : Except Hazard (Option Editor) := do
  let addr ← editor.addr memory
  let record ← memory.read addr
  match record.next with
  | none => return none
  | some _ => return some { editor with slot := .behind addr }

/-- Empties the slot, frees the node that was in it, and puts the nodes behind it into the slot.
After a fault the slot stays empty and those nodes have been discarded. -/
def release [Parent π] (editor : Editor) (depot : Depot T π) :
    Except Hazard (Except Fault Int64 × Option Nat × Depot T π) := do
  let addr ← editor.addr depot.memory
  let (editor, memory) ← editor.setLink none depot.memory
  match ← ({ depot with memory }).free addr with
  | (none, record, depot) =>
      let (editor, memory) ← editor.setLink record.next depot.memory
      return (.ok record.value, editor.first, { depot with memory })
  | (some fault, record, depot) =>
      let (_, depot) ← depot.discard record.next
      return (.error fault, editor.first, depot)

end Editor

end ChainLedger
