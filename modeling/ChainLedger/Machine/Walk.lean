import ChainLedger.Machine.Basic
import ChainLedger.Session.Walk

set_option autoImplicit false

namespace ChainLedger

structure EditEnd (T : Layering) (π : Type) where
  reply : Reply T
  /-- The link to the list that the editor leaves. -/
  left : Option Nat
  /-- Lists to be stored, in the order of the steps. -/
  aside : List (String × Option Nat)
  machine : Machine T π

namespace Editor

variable {T : Layering} {π : Type} [Parent π]

def record (memory : Memory T) (editor : Editor) : Except Hazard (Record T) := do
  let addr ← editor.addr memory
  memory.read addr

/-- Takes steps until they are used up, the editor has no node left to stand at, or something goes
wrong. `answers` and `aside` hold what has come together so far, newest first. -/
def walk (answers : List (Answer T)) (aside : List (String × Option Nat)) (editor : Editor)
    (machine : Machine T π) : List WalkStep → Except Hazard (EditEnd T π)
  | [] => .ok ⟨.answers answers.reverse, editor.first, aside.reverse, machine⟩
  | .value :: steps => do
      let record ← editor.record machine.memory
      walk (.value record.value :: answers) aside editor machine steps
  | .terminal :: steps => do
      let record ← editor.record machine.memory
      walk (.truth record.next.isNone :: answers) aside editor machine steps
  | .valueAndNext :: steps => do
      let record ← editor.record machine.memory
      let (next, _) ← machine.memory.next record.next
      walk (.valueAndNext record.value next :: answers) aside editor machine steps
  | .next :: steps => do
      let record ← editor.record machine.memory
      let (next, _) ← machine.memory.next record.next
      walk (.ofValue? next :: answers) aside editor machine steps
  | .owner :: steps => do
      let record ← editor.record machine.memory
      walk (.owner record.owner :: answers) aside editor machine steps
  | .render none :: _ => .ok ⟨.problem .badInput, editor.first, aside.reverse, machine⟩
  | .render (some style) :: steps => do
      let record ← editor.record machine.memory
      walk (.text (renderValue style "CursorMut" record.value) :: answers) aside editor machine
        steps
  | .advance :: steps => do
      match ← editor.advance? machine.memory with
      | some moved => walk (.truth true :: answers) aside moved machine steps
      | none =>
          return ⟨.answers (.nothing :: answers).reverse, editor.first, aside.reverse, machine⟩
  | .release :: _ => do
      match ← editor.release machine.depot with
      | (.ok value, left, depot) =>
          return ⟨.answers (.value value :: answers).reverse, left, aside.reverse,
            { machine with depot }⟩
      | (.error fault, left, depot) =>
          return ⟨.failed (.fault fault), left, aside.reverse, { machine with depot }⟩
  | .splitOff target :: steps => do
      let addr ← editor.addr machine.memory
      let (cut, machine) ← machine.relink addr none
      let tail ← machine.memory.gather cut
      match target with
      | some name => walk (.ofTail tail :: answers) ((name, cut) :: aside) editor machine steps
      | none =>
          match ← machine.discard cut with
          | (none, machine) => walk (.ofTail tail :: answers) aside editor machine steps
          | (some fault, machine) =>
              return ⟨.failed (.fault fault), editor.first, aside.reverse, machine⟩
  | .link source target :: steps => do
      let (successors, machine) := machine.take? source
      let addr ← editor.addr machine.memory
      let (cut, machine) ← machine.relink addr successors
      let tail ← machine.memory.gather cut
      match target with
      | some name => walk (.ofTail tail :: answers) ((name, cut) :: aside) editor machine steps
      | none =>
          match ← machine.discard cut with
          | (none, machine) => walk (.ofTail tail :: answers) aside editor machine steps
          | (some fault, machine) =>
              return ⟨.failed (.fault fault), editor.first, aside.reverse, machine⟩
  | .unrecognised :: steps => walk (.unrecognised :: answers) aside editor machine steps

end Editor

namespace Machine

variable {T : Layering} {π : Type} [Parent π]

/-- Walks through the holder under a name. A holder without nodes is not walked. -/
def walk (machine : Machine T π) (name : String) (steps : List WalkStep) :
    Except Hazard (Reply T × Machine T π) :=
  match machine.holders.get? name with
  | none => .ok (.answer .nothing, machine)
  | some holder =>
      match Editor.ofLink? holder.first with
      | none => .ok (.answer .nothing, machine)
      | some editor => do
          let away := { machine with holders := machine.holders.erase name }
          let ⟨reply, left, aside, walked⟩ ← editor.walk [] [] away steps
          let back := walked.holders.put name (holder.withFirst left)
          return conclude reply (← putAll aside { walked with holders := back })

end Machine

end ChainLedger
