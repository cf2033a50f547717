import ChainLedger.Store

set_option autoImplicit false

namespace ChainLedger

inductive Call (T : Layering) where
  | allocate (i : Fin T.size) (layout : Layout)
  | deallocate (i : Fin T.size) (addr : Nat) (layout : Layout)
  | setBudget (i : Fin T.size) (budget : Option Nat)
deriving DecidableEq

namespace Store

variable {T : Layering} {π : Type} [Parent π]

def call (store : Store T π) : Call T → Except Failure (Option Nat) × Store T π
  | .allocate i layout =>
      match store.allocate (some i) layout with
      | (.ok addr, store) => (.ok (some addr), store)
      | (.error failure, store) => (.error failure, store)
  | .deallocate i addr layout =>
      match store.deallocate (some i) addr layout with
      | (none, store) => (.ok none, store)
      | (some fault, store) => (.error (.fault fault), store)
  | .setBudget i budget => (.ok none, store.setBudget i budget)

theorem call_allocate (store : Store T π) (i : Fin T.size) (layout : Layout) :
    store.call (.allocate i layout) =
      ((store.allocate (some i) layout).1.map some, (store.allocate (some i) layout).2) := by
  simp only [call]
  split <;> next asked => rw [asked]; rfl

theorem call_deallocate (store : Store T π) (i : Fin T.size) (addr : Nat) (layout : Layout) :
    store.call (.deallocate i addr layout) =
      ((store.deallocate (some i) addr layout).1.elim (.ok none) fun fault => .error (.fault fault),
        (store.deallocate (some i) addr layout).2) := by
  simp only [call]
  split <;> next returned => rw [returned]; rfl

def calls : List (Call T) → Store T π → List (Except Failure (Option Nat)) × Store T π
  | [], store => ([], store)
  | call :: later, store =>
      match store.call call with
      | (answer, store) =>
          match calls later store with
          | (answers, store) => (answer :: answers, store)

end Store

end ChainLedger
