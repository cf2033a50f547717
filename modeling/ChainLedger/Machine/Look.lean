import ChainLedger.Memory
import ChainLedger.Session.Look

set_option autoImplicit false

namespace ChainLedger

namespace Memory

variable {T : Layering}

/-- Reads values step by step from a link on. Counting the values and asking for the last one use
them up, so the steps behind are not taken. -/
def stream (memory : Memory T) (link : Option Nat) :
    List StreamStep → Except Hazard (List (Answer T))
  | [] => .ok []
  | .next :: steps => do
      let (value, link) ← memory.next link
      return .ofValue? value :: (← memory.stream link steps)
  | .skip count :: steps => do
      let (value, link) ← memory.skip count link
      return .ofValue? value :: (← memory.stream link steps)
  | .bounds :: steps => do return .bounds 0 none :: (← memory.stream link steps)
  | .rest :: steps => do
      let nodes ← memory.gather link
      return .values (Tail.values nodes) :: (← memory.stream none steps)
  | .count :: _ => do
      let nodes ← memory.gather link
      return [.count nodes.length]
  | .last :: _ => do
      let nodes ← memory.gather link
      return [.ofValue? (Tail.values nodes).getLast?]
  | .unrecognised :: steps => do return .unrecognised :: (← memory.stream link steps)

/-- Looks around step by step from the record at an address; `saved` is the address remembered. At
the end of the list there is no advancing. -/
def look (memory : Memory T) (saved addr : Nat) :
    List CursorStep → Except Hazard (Except Problem (List (Answer T)))
  | [] => .ok (.ok [])
  | .value :: steps => do
      let record ← memory.read addr
      return (← memory.look saved addr steps).map (.value record.value :: ·)
  | .terminal :: steps => do
      let record ← memory.read addr
      return (← memory.look saved addr steps).map (.truth record.next.isNone :: ·)
  | .next :: steps => do
      let record ← memory.read addr
      let (value, _) ← memory.next record.next
      return (← memory.look saved addr steps).map (.ofValue? value :: ·)
  | .values :: steps => do
      let nodes ← memory.gather (some addr)
      return (← memory.look saved addr steps).map (.values (Tail.values nodes) :: ·)
  | .advance :: steps => do
      let record ← memory.read addr
      match record.next with
      | some moved => return (← memory.look saved moved steps).map (.truth true :: ·)
      | none => return (← memory.look saved addr steps).map (.nothing :: ·)
  | .save :: steps => do return (← memory.look addr addr steps).map (.done :: ·)
  | .restore :: steps => do return (← memory.look saved saved steps).map (.done :: ·)
  | .same :: steps => do
      return (← memory.look saved addr steps).map (.truth (saved == addr) :: ·)
  | .render none :: _ => .ok (.error .badInput)
  | .render (some style) :: steps => do
      let record ← memory.read addr
      let text := renderValue style "Cursor" record.value
      return (← memory.look saved addr steps).map (.text text :: ·)
  | .unrecognised :: steps => do
      return (← memory.look saved addr steps).map (.unrecognised :: ·)

end Memory

end ChainLedger
