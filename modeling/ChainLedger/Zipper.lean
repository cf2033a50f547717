import ChainLedger.Chain

set_option autoImplicit false

namespace ChainLedger

/-- The nodes already passed, nearest first, the node at which the zipper stands, and the nodes
behind it. -/
structure Zipper (T : Layering) where
  passed : Tail T
  focus : Node T
  rest : Tail T
deriving DecidableEq

namespace Zipper

variable {T : Layering} {π : Type}

def ofTail? : Tail T → Option (Zipper T)
  | [] => none
  | node :: rest => some ⟨[], node, rest⟩

def nodes (zipper : Zipper T) : Tail T :=
  zipper.passed.reverse ++ zipper.focus :: zipper.rest

def value (zipper : Zipper T) : Int64 :=
  zipper.focus.value

def isTerminal (zipper : Zipper T) : Bool :=
  zipper.rest.isEmpty

/-- Moves on to the next node; there is none behind the last one. -/
def advance? (zipper : Zipper T) : Option (Zipper T) :=
  match zipper.rest with
  | [] => none
  | node :: rest => some ⟨zipper.focus :: zipper.passed, node, rest⟩

/-- Puts other nodes behind the zipper's node and hands back those that stood there. -/
def link (successors : Tail T) (zipper : Zipper T) : Tail T × Zipper T :=
  (zipper.rest, { zipper with rest := successors })

def splitOff (zipper : Zipper T) : Tail T × Zipper T :=
  zipper.link []

/-- Frees the zipper's node and answers with its value and the list without it. After a fault the
list ends in front of the node. -/
def release [Parent π] (zipper : Zipper T) (store : Store T π) :
    Except Fault Int64 × Tail T × Store T π :=
  match Tail.releaseHead zipper.focus zipper.rest store with
  | (.ok rest, store) => (.ok zipper.value, zipper.passed.reverse ++ rest, store)
  | (.error fault, store) => (.error fault, zipper.passed.reverse, store)

theorem nodes_of_ofTail? {tail : Tail T} {zipper : Zipper T} (found : ofTail? tail = some zipper) :
    zipper.nodes = tail ∧ zipper.passed = [] := by
  cases tail with
  | nil => cases found
  | cons node rest => cases found; exact ⟨rfl, rfl⟩

/-- Moving on changes no node and no link. -/
theorem nodes_of_advance? {zipper moved : Zipper T} (found : zipper.advance? = some moved) :
    moved.nodes = zipper.nodes ∧ moved.passed = zipper.focus :: zipper.passed := by
  obtain ⟨passed, focus, rest⟩ := zipper
  cases rest with
  | nil => cases found
  | cons node rest =>
    cases found
    simp only [nodes, List.reverse_cons, List.append_assoc, List.cons_append, List.nil_append,
      and_self]

end Zipper

end ChainLedger
