import ChainLedger.Event
import ChainLedger.Ledger
import ChainLedger.Layering
import ChainLedger.Parent

/-
The store: a forest of ledgers over one parent, and the events written so far. A request travels
inwards along the path of its handle; a granted block is entered on the way out, innermost ledger
first, and a returned block is struck on the way in, outermost ledger first.
-/

set_option autoImplicit false

namespace ChainLedger

/-- The ledgers of the layering `T`, the state of the parent below them, and the events so far,
newest first. -/
structure Store (T : Layering) (π : Type) where
  ledgers : Vector Ledger T.size
  parent : π
  trace : List Event

namespace Store

variable {T : Layering} {π : Type}

/-- A store whose ledgers have empty books and the given budgets. -/
def opened (budgets : Fin T.size → Option Nat) (parent : π) : Store T π :=
  ⟨Vector.ofFn fun i => Ledger.opened (budgets i), parent, []⟩

/-- The events so far, in the order in which they happened. -/
def events (store : Store T π) : List Event :=
  store.trace.reverse

def emit (event : Event) (store : Store T π) : Store T π :=
  { store with trace := event :: store.trace }

def clearEvents (store : Store T π) : Store T π :=
  { store with trace := [] }

def ledger (store : Store T π) (i : Fin T.size) : Ledger :=
  store.ledgers[i]

def withLedger (store : Store T π) (i : Fin T.size) (ledger : Ledger) : Store T π :=
  { store with ledgers := store.ledgers.set i ledger }

def setBudget (store : Store T π) (i : Fin T.size) (budget : Option Nat) : Store T π :=
  store.withLedger i { store.ledger i with budget }

@[simp] theorem events_emit (store : Store T π) (event : Event) :
    (store.emit event).events = store.events ++ [event] :=
  List.reverse_cons

@[simp] theorem ledger_emit (store : Store T π) (event : Event) (i : Fin T.size) :
    (store.emit event).ledger i = store.ledger i := rfl

@[simp] theorem parent_emit (store : Store T π) (event : Event) :
    (store.emit event).parent = store.parent := rfl

@[simp] theorem ledger_withLedger (store : Store T π) (i j : Fin T.size) (ledger : Ledger) :
    (store.withLedger i ledger).ledger j = if i = j then ledger else store.ledger j := by
  simp only [Store.ledger, withLedger, Fin.getElem_fin, Vector.getElem_set, Fin.ext_iff]

@[simp] theorem parent_withLedger (store : Store T π) (i : Fin T.size) (ledger : Ledger) :
    (store.withLedger i ledger).parent = store.parent := rfl

@[simp] theorem trace_withLedger (store : Store T π) (i : Fin T.size) (ledger : Ledger) :
    (store.withLedger i ledger).trace = store.trace := rfl

@[simp] theorem ledger_opened (budgets : Fin T.size → Option Nat) (parent : π) (i : Fin T.size) :
    (opened budgets parent).ledger i = Ledger.opened (budgets i) := by
  simp only [Store.ledger, opened, Fin.getElem_fin, Vector.getElem_ofFn]

theorem ext_ledger {first second : Store T π}
    (ledgers : ∀ i, first.ledger i = second.ledger i)
    (parent : first.parent = second.parent) (trace : first.trace = second.trace) :
    first = second := by
  obtain ⟨firstLedgers, _, _⟩ := first
  obtain ⟨secondLedgers, _, _⟩ := second
  simp only at parent trace
  subst parent trace
  congr 1
  exact Vector.ext fun i inside => ledgers ⟨i, inside⟩

theorem withLedger_comm (store : Store T π) {i j : Fin T.size} (differs : i ≠ j)
    (first second : Ledger) :
    (store.withLedger i first).withLedger j second =
      (store.withLedger j second).withLedger i first := by
  refine ext_ledger (fun k => ?_) rfl rfl
  simp only [ledger_withLedger]
  by_cases here : i = k
  · subst here
    simp only [differs.symm, ↓reduceIte]
  · simp only [here, ↓reduceIte]

variable [Parent π]

/-- Asks for a block along a path of ledgers. The first ledger on the way in whose budget is spent
turns the request away, and the levels inside it hear nothing of it. A fault on the way out leaves
the levels outside it untouched. -/
def allocateAlong (layout : Layout) :
    List (Fin T.size) → Store T π → Except Failure Nat × Store T π
  | [], store =>
      match Parent.allocate layout store.parent with
      | (none, parent) => (.error .refused, { store with parent })
      | (some addr, parent) => (.ok addr, { store with parent })
  | i :: inner, store =>
      if (store.ledger i).IsSpent then
        (.error .refused, store.emit (.requestRefused layout))
      else
        match allocateAlong layout inner store with
        | (.error failure, store) => (.error failure, store)
        | (.ok addr, store) =>
            match (store.ledger i).enter addr layout with
            | (none, entered) => (.ok addr, store.withLedger i entered)
            | (some fault, entered) => (.error (.fault fault), store.withLedger i entered)

/-- Gives a block back along a path of ledgers. A fault leaves the levels inside it untouched. -/
def deallocateAlong (addr : Nat) (layout : Layout) :
    List (Fin T.size) → Store T π → Option Fault × Store T π
  | [], store =>
      (none, { store with parent := Parent.deallocate addr layout store.parent })
  | i :: inner, store =>
      match (store.ledger i).strike addr layout with
      | (none, struck) => deallocateAlong addr layout inner (store.withLedger i struck)
      | (some fault, struck) => (some fault, store.withLedger i struck)

/-- Asks the ledger or parent named by a handle for a block. -/
def allocate (handle : Handle T) (layout : Layout) (store : Store T π) :
    Except Failure Nat × Store T π :=
  allocateAlong layout handle.path store

def deallocate (handle : Handle T) (addr : Nat) (layout : Layout) (store : Store T π) :
    Option Fault × Store T π :=
  deallocateAlong addr layout handle.path store

/-- Exchanges a block for one of another layout. The new block is there before the old one is given
back, so it stays live when the old one turns out to be at fault. -/
def exchange (handle : Handle T) (addr : Nat) (held wanted : Layout) (store : Store T π) :
    Except Failure Nat × Store T π :=
  match store.allocate handle wanted with
  | (.error failure, store) => (.error failure, store)
  | (.ok moved, store) =>
      match store.deallocate handle addr held with
      | (none, store) => (.ok moved, store)
      | (some fault, store) => (.error (.fault fault), store)

def configure (setting : Parent.Setting π) (store : Store T π) : Store T π :=
  { store with parent := Parent.configure setting store.parent }

/-- A request never makes the run end; that is for the caller to decide. -/
theorem allocateAlong_ne_aborted (layout wanted : Layout) (path : List (Fin T.size))
    (store : Store T π) :
    (allocateAlong layout path store).1 ≠ .error (.aborted wanted) := by
  induction path generalizing store with
  | nil =>
    simp only [allocateAlong]
    split <;> simp only [ne_eq, Except.error.injEq, reduceCtorEq, not_false_eq_true]
  | cons i inner ih =>
    have deeper := ih store
    simp only [allocateAlong]
    split
    · simp only [ne_eq, Except.error.injEq, reduceCtorEq, not_false_eq_true]
    · split
      · next failed => rw [failed] at deeper; exact deeper
      · split <;> simp only [ne_eq, Except.error.injEq, reduceCtorEq, not_false_eq_true]

theorem ledger_allocateAlong_of_not_mem (layout : Layout) (path : List (Fin T.size))
    (store : Store T π) (j : Fin T.size) (off : j ∉ path) :
    (allocateAlong layout path store).2.ledger j = store.ledger j := by
  induction path generalizing store with
  | nil =>
    simp only [allocateAlong]
    split <;> rfl
  | cons i inner ih =>
    simp only [List.mem_cons, not_or] at off
    have deeper := ih store off.2
    simp only [allocateAlong]
    split
    · rfl
    · split
      · next failed => rw [failed] at deeper; exact deeper
      · next granted =>
        rw [granted] at deeper
        split <;> rw [ledger_withLedger, if_neg (Ne.symm off.1)] <;> exact deeper

theorem ledger_deallocateAlong_of_not_mem (addr : Nat) (layout : Layout)
    (path : List (Fin T.size)) (store : Store T π) (j : Fin T.size) (off : j ∉ path) :
    (deallocateAlong addr layout path store).2.ledger j = store.ledger j := by
  induction path generalizing store with
  | nil => rfl
  | cons i inner ih =>
    simp only [List.mem_cons, not_or] at off
    simp only [deallocateAlong]
    split
    · rw [ih _ off.2, ledger_withLedger, if_neg (Ne.symm off.1)]
    · rw [ledger_withLedger, if_neg (Ne.symm off.1)]

/-- Giving a block back writes no event. -/
theorem trace_deallocateAlong (addr : Nat) (layout : Layout) (path : List (Fin T.size))
    (store : Store T π) : (deallocateAlong addr layout path store).2.trace = store.trace := by
  induction path generalizing store with
  | nil => rfl
  | cons i inner ih =>
    simp only [deallocateAlong]
    split
    · exact ih _
    · rfl

end Store

end ChainLedger
