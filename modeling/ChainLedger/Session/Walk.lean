import ChainLedger.Session.Basic
import ChainLedger.Text.Render
import ChainLedger.Zipper

set_option autoImplicit false

namespace ChainLedger

inductive WalkStep where
  | value
  | terminal
  /-- The value here and the next one. -/
  | valueAndNext
  | next
  /-- Where the node came from. -/
  | owner
  /-- Shows the zipper in a style, if the style is one. -/
  | render (style : Option Style)
  | advance
  | release
  /-- Detaches everything behind the node and stores it under the name, if there is one. -/
  | splitOff (target : Option String)
  /-- Links the nodes of one register behind the node and stores those that stood there. -/
  | link (source target : Option String)
  | unrecognised
deriving DecidableEq

/-- Where a walk has ended. -/
structure WalkEnd (T : Layering) (π : Type) where
  reply : Reply T
  /-- The list that the zipper leaves. -/
  left : Tail T
  /-- Tails to be stored, in the order of the steps. -/
  aside : List (String × Tail T)
  session : Session T π

namespace Zipper

variable {T : Layering} {π : Type} [Parent π]

/-- Takes steps until they are used up, the zipper has no node left to stand at, or something goes
wrong. `answers` and `aside` hold what has come together so far, newest first. -/
def walk (answers : List (Answer T)) (aside : List (String × Tail T)) (zipper : Zipper T)
    (session : Session T π) : List WalkStep → WalkEnd T π
  | [] => ⟨.answers answers.reverse, zipper.nodes, aside.reverse, session⟩
  | .value :: steps => walk (.value zipper.value :: answers) aside zipper session steps
  | .terminal :: steps => walk (.truth zipper.isTerminal :: answers) aside zipper session steps
  | .valueAndNext :: steps =>
      walk (.valueAndNext zipper.value (zipper.rest.head?.map Node.value) :: answers) aside zipper
        session steps
  | .next :: steps =>
      walk (.ofValue? (zipper.rest.head?.map Node.value) :: answers) aside zipper session steps
  | .owner :: steps => walk (.owner zipper.focus.owner :: answers) aside zipper session steps
  | .render none :: _ => ⟨.problem .badInput, zipper.nodes, aside.reverse, session⟩
  | .render (some style) :: steps =>
      walk (.text (zipper.render style) :: answers) aside zipper session steps
  | .advance :: steps =>
      match zipper.advance? with
      | some moved => walk (.truth true :: answers) aside moved session steps
      | none => ⟨.answers (.nothing :: answers).reverse, zipper.nodes, aside.reverse, session⟩
  | .release :: _ =>
      match zipper.release session.store with
      | (.ok value, left, store) =>
          ⟨.answers (.value value :: answers).reverse, left, aside.reverse, { session with store }⟩
      | (.error fault, left, store) =>
          ⟨.failed (.fault fault), left, aside.reverse, { session with store }⟩
  | .splitOff target :: steps =>
      match zipper.splitOff with
      | (cut, zipper) =>
          match target with
          | some name =>
              walk (.ofTail cut :: answers) ((name, cut) :: aside) zipper session steps
          | none =>
              match session.discard cut with
              | (none, session) => walk (.ofTail cut :: answers) aside zipper session steps
              | (some fault, session) =>
                  ⟨.failed (.fault fault), zipper.nodes, aside.reverse, session⟩
  | .link source target :: steps =>
      match session.take? source with
      | (successors, session) =>
          match zipper.link successors with
          | (cut, zipper) =>
              match target with
              | some name =>
                  walk (.ofTail cut :: answers) ((name, cut) :: aside) zipper session steps
              | none =>
                  match session.discard cut with
                  | (none, session) => walk (.ofTail cut :: answers) aside zipper session steps
                  | (some fault, session) =>
                      ⟨.failed (.fault fault), zipper.nodes, aside.reverse, session⟩
  | .unrecognised :: steps => walk (.unrecognised :: answers) aside zipper session steps

end Zipper

namespace Session

variable {T : Layering} {π : Type} [Parent π]

def walk (session : Session T π) (name : String) (steps : List WalkStep) :
    Reply T × Session T π :=
  match session.registers.get? name with
  | none => (.answer .nothing, session)
  | some register =>
      match Zipper.ofTail? register.nodes with
      | none => (.answer .nothing, session)
      | some zipper =>
          let away := { session with registers := session.registers.erase name }
          match zipper.walk [] [] away steps with
          | ⟨reply, left, aside, walked⟩ =>
              let back := walked.registers.put name (register.withNodes left)
              conclude reply (putAll aside { walked with registers := back })

end Session

end ChainLedger
