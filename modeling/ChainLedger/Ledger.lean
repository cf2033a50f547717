import ChainLedger.Fault
import Std.Data.ExtTreeMap

set_option autoImplicit false

namespace ChainLedger

/-- The live blocks by address, what is left of the budget (`none` sets no limit), and how many
blocks have been entered and struck so far. -/
structure Ledger where
  live : Std.ExtTreeMap Nat Layout
  budget : Option Nat
  allocations : Nat
  releases : Nat
deriving DecidableEq

namespace Ledger

def opened (budget : Option Nat) : Ledger :=
  ⟨∅, budget, 0, 0⟩

def liveCount (ledger : Ledger) : Nat :=
  ledger.live.size

def isLive (ledger : Ledger) (addr : Nat) : Bool :=
  ledger.live.contains addr

/-- Address and size of every live block, in ascending order of the addresses. -/
def snapshot (ledger : Ledger) : List (Nat × Nat) :=
  ledger.live.toList.map fun (addr, layout) => (addr, layout.size)

/-- Whether the budget is used up, so that every request is turned away. -/
def IsSpent (ledger : Ledger) : Prop :=
  ledger.budget = some 0

instance (ledger : Ledger) : Decidable ledger.IsSpent :=
  inferInstanceAs (Decidable (ledger.budget = some 0))

def spend (ledger : Ledger) : Ledger :=
  { ledger with budget := ledger.budget.map (· - 1), allocations := ledger.allocations + 1 }

def countRelease (ledger : Ledger) : Ledger :=
  { ledger with releases := ledger.releases + 1 }

/-- Enters a block that the level below has handed out. Blocks without bytes may share an address,
so they are counted and not recorded. A block that is live already is a fault, found after its
layout has been replaced. -/
def enter (addr : Nat) (layout : Layout) (ledger : Ledger) : Option Fault × Ledger :=
  if layout.size = 0 then
    (none, ledger.spend)
  else
    (if ledger.isLive addr then some (.liveBlockReturned addr) else none,
      { ledger.spend with live := ledger.live.insert addr layout })

/-- Strikes out a block that is given back. The block leaves the books before its layout is
compared, and the release counts only if the layouts agree. Blocks without bytes are not looked up. -/
def strike (addr : Nat) (layout : Layout) (ledger : Ledger) : Option Fault × Ledger :=
  if layout.size = 0 then
    (none, ledger.countRelease)
  else
    match ledger.live[addr]? with
    | none => (some (.notLive addr), ledger)
    | some recorded =>
        if recorded = layout then
          (none, { ledger.countRelease with live := ledger.live.erase addr })
        else
          (some (.layoutMismatch addr layout.size recorded.size),
            { ledger with live := ledger.live.erase addr })

theorem isLive_iff {ledger : Ledger} {addr : Nat} :
    ledger.isLive addr = true ↔ ∃ layout, ledger.live[addr]? = some layout := by
  simp only [isLive, ← Std.ExtTreeMap.isSome_getElem?_eq_contains, Option.isSome_iff_exists]

theorem isLive_eq (ledger : Ledger) (addr : Nat) :
    ledger.isLive addr = (ledger.live[addr]?).isSome := by
  rw [isLive, Std.ExtTreeMap.isSome_getElem?_eq_contains]

theorem strike_empty {addr : Nat} {layout : Layout} {ledger : Ledger} (empty : layout.size = 0) :
    ledger.strike addr layout = (none, ledger.countRelease) := by
  simp only [strike, empty, ↓reduceIte]

theorem budget_enter (addr : Nat) (layout : Layout) (ledger : Ledger) :
    (ledger.enter addr layout).2.budget = ledger.budget.map (· - 1) := by
  simp only [enter]
  split <;> rfl

theorem allocations_enter (addr : Nat) (layout : Layout) (ledger : Ledger) :
    (ledger.enter addr layout).2.allocations = ledger.allocations + 1 := by
  simp only [enter]
  split <;> rfl

theorem releases_enter (addr : Nat) (layout : Layout) (ledger : Ledger) :
    (ledger.enter addr layout).2.releases = ledger.releases := by
  simp only [enter]
  split <;> rfl

theorem budget_strike (addr : Nat) (layout : Layout) (ledger : Ledger) :
    (ledger.strike addr layout).2.budget = ledger.budget := by
  simp only [strike]
  split
  · rfl
  · split
    · rfl
    · split <;> rfl

theorem allocations_strike (addr : Nat) (layout : Layout) (ledger : Ledger) :
    (ledger.strike addr layout).2.allocations = ledger.allocations := by
  simp only [strike]
  split
  · rfl
  · split
    · rfl
    · split <;> rfl

theorem releases_strike (addr : Nat) (layout : Layout) (ledger : Ledger) :
    (ledger.strike addr layout).2.releases =
      ledger.releases + if (ledger.strike addr layout).1 = none then 1 else 0 := by
  simp only [strike]
  split
  · rfl
  · split
    · rfl
    · split <;> rfl

theorem live_enter (ledger : Ledger) (addr : Nat) (layout : Layout) (other : Nat) :
    (ledger.enter addr layout).2.live[other]? =
      if addr = other ∧ layout.size ≠ 0 then some layout else ledger.live[other]? := by
  simp only [enter]
  split
  · next empty => simp only [spend, empty, ne_eq, not_true_eq_false, and_false, ↓reduceIte]
  · next positive =>
    simp only [Std.ExtTreeMap.getElem?_insert, Nat.compare_eq_eq, ne_eq, positive,
      not_false_eq_true, and_true]

/-- Striking concerns the struck address alone, and never leaves a block there. -/
theorem live_strike (ledger : Ledger) (addr : Nat) (layout : Layout) (other : Nat) :
    (ledger.strike addr layout).2.live[other]? =
      if addr = other ∧ layout.size ≠ 0 then none else ledger.live[other]? := by
  simp only [strike]
  split
  · next empty => simp only [countRelease, empty, ne_eq, not_true_eq_false, and_false, ↓reduceIte]
  · next positive =>
    split
    · next absent =>
      by_cases same : addr = other
      · subst same
        simp only [absent, ite_self]
      · simp only [same, false_and, ↓reduceIte]
    · split <;>
        simp only [Std.ExtTreeMap.getElem?_erase, Nat.compare_eq_eq, ne_eq, positive,
          not_false_eq_true, and_true]

theorem isLive_enter (ledger : Ledger) (addr : Nat) (layout : Layout) (other : Nat) :
    (ledger.enter addr layout).2.isLive other = true ↔
      ledger.isLive other = true ∨ addr = other ∧ layout.size ≠ 0 := by
  simp only [isLive_eq, live_enter]
  split
  · next entered => simp only [Option.isSome_some, entered, ne_eq, not_false_eq_true, and_self,
      or_true]
  · next untouched => simp only [untouched, or_false]

theorem isLive_strike (ledger : Ledger) (addr : Nat) (layout : Layout) (other : Nat) :
    (ledger.strike addr layout).2.isLive other = true ↔
      ledger.isLive other = true ∧ ¬ (addr = other ∧ layout.size ≠ 0) := by
  simp only [isLive_eq, live_strike]
  split
  · next struck => simp only [Option.isSome_none, Bool.false_eq_true, struck, ne_eq,
      not_false_eq_true, and_self, not_true_eq_false, and_false]
  · next untouched => simp only [untouched, not_false_eq_true, and_true]

/-- An entry makes one more block live, unless the block has no bytes or is live already. -/
theorem liveCount_enter (ledger : Ledger) (addr : Nat) (layout : Layout) :
    (ledger.enter addr layout).2.liveCount =
      ledger.liveCount + if layout.size = 0 ∨ ledger.isLive addr = true then 0 else 1 := by
  simp only [enter]
  split
  · next empty => simp only [spend, liveCount, empty, true_or, ↓reduceIte, Nat.add_zero]
  · next positive =>
    simp only [liveCount, Std.ExtTreeMap.size_insert, isLive, positive, false_or]
    split <;> rfl

/-- A strike makes one block fewer live, unless the block has no bytes or is not live. -/
theorem liveCount_strike (ledger : Ledger) (addr : Nat) (layout : Layout) :
    (ledger.strike addr layout).2.liveCount +
      (if layout.size ≠ 0 ∧ ledger.isLive addr = true then 1 else 0) = ledger.liveCount := by
  by_cases empty : layout.size = 0
  · simp only [strike_empty empty, countRelease, liveCount, empty, ne_eq, not_true_eq_false,
      false_and, ↓reduceIte, Nat.add_zero]
  rcases found : ledger.live[addr]? with _ | recorded
  · simp only [strike, empty, ↓reduceIte, found, isLive_eq, Option.isSome_none,
      Bool.false_eq_true, and_false, Nat.add_zero]
  · have live : ledger.isLive addr = true := isLive_iff.2 ⟨recorded, found⟩
    have size : (ledger.live.erase addr).size + 1 = ledger.live.size := by
      have some : ledger.live.size ≠ 0 := by
        intro none
        rw [← Std.ExtTreeMap.eq_empty_iff_size_eq_zero] at none
        simp only [isLive, none, Std.ExtTreeMap.contains_empty, Bool.false_eq_true] at live
      rw [Std.ExtTreeMap.size_erase, if_pos (show ledger.live.contains addr = true from live)]
      omega
    simp only [strike, empty, ↓reduceIte, found, live, ne_eq, not_false_eq_true, and_self]
    split <;> exact size

theorem enter_accepted_iff {ledger : Ledger} {addr : Nat} {layout : Layout} :
    (ledger.enter addr layout).1 = none ↔ layout.size = 0 ∨ ledger.isLive addr = false := by
  simp only [enter]
  split
  · next empty => simp only [empty, true_or]
  · next positive =>
    cases ledger.isLive addr <;>
      simp only [positive, Bool.false_eq_true, Bool.true_eq_false, ↓reduceIte, reduceCtorEq,
        or_true, or_self]

theorem eq_of_enter_fault {ledger : Ledger} {addr : Nat} {layout : Layout} {fault : Fault}
    (failed : (ledger.enter addr layout).1 = some fault) :
    fault = .liveBlockReturned addr ∧ layout.size ≠ 0 ∧ ledger.isLive addr = true := by
  simp only [enter] at failed
  split at failed
  · cases failed
  · next positive =>
    split at failed
    · next live => exact ⟨(Option.some.inj failed).symm, positive, live⟩
    · cases failed

/-- A strike is accepted exactly if the block has no bytes or is live with the named layout. -/
theorem strike_accepted_iff {ledger : Ledger} {addr : Nat} {layout : Layout} :
    (ledger.strike addr layout).1 = none ↔
      layout.size = 0 ∨ ledger.live[addr]? = some layout := by
  simp only [strike]
  split
  · next empty => simp only [empty, true_or]
  · next positive =>
    split
    · next absent => simp only [reduceCtorEq, positive, absent, or_self]
    · next recorded found =>
      split
      · next same => simp only [positive, found, same, or_true]
      · next different =>
        simp only [reduceCtorEq, positive, found, Option.some.injEq, different, or_self]

end Ledger

end ChainLedger
