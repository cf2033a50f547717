import ChainLedger.Call
import ChainLedger.Parent.Arena
import ChainLedger.Proofs.Freshness
import ChainLedger.Proofs.History

/-
Wrapping a ledger: a new ledger without a budget is put on top of it, and whoever used the old one
uses the new one. Main statement: over a parent that grants no address twice nobody can tell the
difference (`transparent_calls`). The two sets of books do drift apart: a block returned with the
wrong layout leaves the outer books and stays in the inner ones. It does no harm, for the outer
ledger turns away whatever the inner one would have been asked about that block, and the parent
never hands it out again.
-/

set_option autoImplicit false

namespace ChainLedger

namespace Layering

/-- The layering with one more ledger, which stands on ledger `i`. -/
def onTop (T : Layering) (i : Fin T.size) : Layering where
  size := T.size + 1
  below k := if inside : k.val < T.size then (T.below ⟨k, inside⟩).map Fin.castSucc
    else some i.castSucc
  below_lt k l stands := by
    split at stands
    · next inside =>
      obtain ⟨j, found, rfl⟩ := Option.map_eq_some_iff.1 stands
      exact T.below_lt ⟨k, inside⟩ j found
    · next outside =>
      obtain rfl := Option.some.inj stands
      exact Fin.lt_def.2 (Nat.lt_of_lt_of_le i.isLt (Nat.le_of_not_lt outside))

variable {T : Layering} {i : Fin T.size}

/-- The new ledger. -/
def top (i : Fin T.size) : Fin (T.onTop i).size :=
  Fin.last T.size

def beneath (i j : Fin T.size) : Fin (T.onTop i).size :=
  j.castSucc

theorem beneath_injective (i : Fin T.size) : Function.Injective (beneath i) :=
  Fin.castSucc_injective T.size

theorem beneath_ne_top (j : Fin T.size) : beneath i j ≠ top i :=
  Fin.castSucc_ne_last j

/-- The budgets of the old ledgers; the new one has none. -/
def budgetsOnTop (i : Fin T.size) (budgets : Fin T.size → Option Nat) :
    Fin (T.onTop i).size → Option Nat :=
  fun k => if inside : k.val < T.size then budgets ⟨k, inside⟩ else none

theorem budgetsOnTop_top (budgets : Fin T.size → Option Nat) :
    budgetsOnTop i budgets (top i) = none := by
  simp only [budgetsOnTop, top, Fin.val_last, Nat.lt_irrefl, ↓reduceDIte]

theorem budgetsOnTop_beneath (budgets : Fin T.size → Option Nat) (j : Fin T.size) :
    budgetsOnTop i budgets (beneath i j) = budgets j := by
  simp only [budgetsOnTop, beneath, Fin.val_castSucc, Fin.is_lt, ↓reduceDIte, Fin.eta]

theorem top_not_mem_map (path : List (Fin T.size)) : top i ∉ path.map (beneath i) := by
  intro on
  obtain ⟨j, _, same⟩ := List.mem_map.1 on
  exact beneath_ne_top j same

theorem beneath_not_mem_map {path : List (Fin T.size)} {j : Fin T.size} (off : j ∉ path) :
    beneath i j ∉ path.map (beneath i) := by
  intro on
  obtain ⟨k, member, same⟩ := List.mem_map.1 on
  exact off (beneath_injective i same ▸ member)

theorem below_top : (T.onTop i).below (top i) = some (beneath i i) := by
  simp only [onTop, top, Fin.val_last, Nat.lt_irrefl, ↓reduceDIte, beneath]

theorem below_beneath (j : Fin T.size) :
    (T.onTop i).below (beneath i j) = (T.below j).map (beneath i) := by
  simp only [onTop, beneath, Fin.val_castSucc, Fin.is_lt, ↓reduceDIte, Fin.eta]
  rfl

/-- The way inwards from an old ledger is the old one. -/
theorem path_beneath (j : Fin T.size) :
    (T.onTop i).path (beneath i j) = (T.path j).map (beneath i) := by
  induction j using induction_inward with
  | bottom j stands =>
    rw [path_of_below_none stands,
      path_of_below_none ((below_beneath j).trans (by rw [stands]; rfl))]
    rfl
  | above j k stands ih =>
    rw [path_of_below_some stands,
      path_of_below_some ((below_beneath j).trans (by rw [stands]; rfl)), ih]
    rfl

theorem handlePath_below_beneath (j : Fin T.size) :
    Handle.path ((T.onTop i).below (beneath i j)) = (Handle.path (T.below j)).map (beneath i) := by
  rw [below_beneath]
  cases T.below j with
  | none => rfl
  | some k => exact path_beneath k

end Layering

open Layering

/-- The same call when the users of ledger `i` have moved to the ledger on top of it. Its budget
stays where it was. -/
def Call.through {T : Layering} (i : Fin T.size) : Call T → Call (T.onTop i)
  | .allocate j layout => .allocate (if j = i then top i else beneath i j) layout
  | .deallocate j addr layout => .deallocate (if j = i then top i else beneath i j) addr layout
  | .setBudget j budget => .setBudget (beneath i j) budget

/-- Ledger `i` is reached by its own users only, and no layout has alignment zero. -/
def Call.Fits {T : Layering} (i : Fin T.size) : Call T → Prop
  | .allocate j layout => (j = i ∨ i ∉ T.path j) ∧ 0 < layout.align
  | .deallocate j _ _ => j = i ∨ i ∉ T.path j
  | .setBudget .. => True

instance {T : Layering} (i : Fin T.size) (call : Call T) : Decidable (call.Fits i) := by
  cases call <;> simp only [Call.Fits] <;> infer_instance

namespace Ledger

/-- The ledger without its budget. -/
def unlimited (ledger : Ledger) : Ledger :=
  { ledger with budget := none }

theorem unlimited_not_spent (ledger : Ledger) : ¬ ledger.unlimited.IsSpent :=
  nofun

theorem enter_unlimited (addr : Nat) (layout : Layout) (ledger : Ledger) :
    ledger.unlimited.enter addr layout =
      ((ledger.enter addr layout).1, (ledger.enter addr layout).2.unlimited) := by
  simp only [enter]
  split <;> rfl

theorem strike_unlimited (addr : Nat) (layout : Layout) (ledger : Ledger) :
    ledger.unlimited.strike addr layout =
      ((ledger.strike addr layout).1, (ledger.strike addr layout).2.unlimited) := by
  simp only [strike]
  split
  · rfl
  · split
    · next absent => rw [show ledger.live[addr]? = none from absent]
    · next recorded found =>
      rw [show ledger.live[addr]? = some recorded from found]
      simp only
      split <;> rfl

/-- The books of a ledger on top of which another one is kept: the counts are those of the ledger
`alone` on its own, and it holds at least the blocks that `alone` would hold. -/
structure Underlies (wrapped alone : Ledger) : Prop where
  budget : wrapped.budget = alone.budget
  allocations : wrapped.allocations = alone.allocations
  releases : wrapped.releases = alone.releases
  within : ∀ (addr : Nat) (layout : Layout),
    alone.live[addr]? = some layout → wrapped.live[addr]? = some layout

namespace Underlies

variable {wrapped alone : Ledger} {addr : Nat} {layout : Layout}

theorem spent_iff (underlies : wrapped.Underlies alone) : wrapped.IsSpent ↔ alone.IsSpent := by
  rw [IsSpent, IsSpent, underlies.budget]

/-- A block that is not live below is accepted on both sides. -/
theorem enter (underlies : wrapped.Underlies alone)
    (free : layout.size ≠ 0 → wrapped.isLive addr = false) :
    (alone.enter addr layout).1 = none ∧ (wrapped.enter addr layout).1 = none ∧
      (wrapped.enter addr layout).2.Underlies (alone.enter addr layout).2 := by
  refine ⟨enter_accepted_iff.2 (or_iff_not_imp_left.2 fun positive => ?_),
    enter_accepted_iff.2 (or_iff_not_imp_left.2 free), ?_⟩
  · have absent := free positive
    rw [← Bool.not_eq_true, isLive_iff] at absent ⊢
    exact mt (fun ⟨recorded, found⟩ => ⟨recorded, underlies.within addr recorded found⟩) absent
  · refine ⟨?_, ?_, ?_, fun other recorded found => ?_⟩
    · rw [budget_enter, budget_enter, underlies.budget]
    · rw [allocations_enter, allocations_enter, underlies.allocations]
    · rw [releases_enter, releases_enter, underlies.releases]
    · rw [live_enter] at found ⊢
      split at found
      · next entered => rw [if_pos entered]; exact found
      · next untouched => rw [if_neg untouched]; exact underlies.within other recorded found

/-- What is accepted back by the ledger on its own is accepted below. -/
theorem strike (underlies : wrapped.Underlies alone)
    (accepted : (alone.strike addr layout).1 = none) :
    (wrapped.strike addr layout).1 = none ∧
      (wrapped.strike addr layout).2.Underlies (alone.strike addr layout).2 := by
  have below : (wrapped.strike addr layout).1 = none :=
    strike_accepted_iff.2 ((strike_accepted_iff.1 accepted).imp_right
      (underlies.within addr layout))
  refine ⟨below, ?_, ?_, ?_, fun other recorded found => ?_⟩
  · rw [budget_strike, budget_strike, underlies.budget]
  · rw [allocations_strike, allocations_strike, underlies.allocations]
  · rw [releases_strike, releases_strike, accepted, below, underlies.releases]
  · rw [live_strike] at found ⊢
    split at found
    · cases found
    · next untouched => rw [if_neg untouched]; exact underlies.within other recorded found

/-- A return that ends in a fault is not heard of below, where the block may stay live. -/
theorem strike_fault (underlies : wrapped.Underlies alone) {fault : Fault}
    (failed : (alone.strike addr layout).1 = some fault) :
    wrapped.Underlies (alone.strike addr layout).2 := by
  refine ⟨?_, ?_, ?_, fun other recorded found => ?_⟩
  · rw [budget_strike, underlies.budget]
  · rw [allocations_strike, underlies.allocations]
  · rw [releases_strike, failed, underlies.releases]
    rfl
  · rw [live_strike] at found
    split at found
    · cases found
    · exact underlies.within other recorded found

end Underlies

end Ledger

namespace Store

variable {T S : Layering} {π : Type}

/-- Two stores over one parent that agree, event by event and, for the ledgers of the first named
by `on`, book by book, where `rename` gives their places in the second. -/
structure Agree (rename : Fin T.size → Fin S.size) (on : Fin T.size → Prop)
    (first : Store T π) (second : Store S π) : Prop where
  parent : second.parent = first.parent
  trace : second.trace = first.trace
  ledger : ∀ j, on j → second.ledger (rename j) = first.ledger j

namespace Agree

variable {rename : Fin T.size → Fin S.size} {on : Fin T.size → Prop} {first : Store T π}
  {second : Store S π}

theorem withLedger (agree : Agree rename on first second) (injective : Function.Injective rename)
    (j : Fin T.size) (ledger : Ledger) :
    Agree rename on (first.withLedger j ledger) (second.withLedger (rename j) ledger) where
  parent := agree.parent
  trace := agree.trace
  ledger k inside := by
    simp only [ledger_withLedger, injective.eq_iff, agree.ledger k inside]

theorem withLedger_left (agree : Agree rename on first second) {j : Fin T.size} (off : ¬ on j)
    (ledger : Ledger) : Agree rename on (first.withLedger j ledger) second where
  parent := agree.parent
  trace := agree.trace
  ledger k inside := by
    have differs : j ≠ k := fun same => off (same ▸ inside)
    rw [agree.ledger k inside, ledger_withLedger, if_neg differs]

theorem withLedger_right (agree : Agree rename on first second) {l : Fin S.size}
    (off : ∀ j, on j → rename j ≠ l) (ledger : Ledger) :
    Agree rename on first (second.withLedger l ledger) where
  parent := agree.parent
  trace := agree.trace
  ledger k inside := by
    rw [ledger_withLedger, if_neg fun same => off k inside same.symm, agree.ledger k inside]

theorem emit (agree : Agree rename on first second) (event : Event) :
    Agree rename on (first.emit event) (second.emit event) where
  parent := agree.parent
  trace := congrArg (event :: ·) agree.trace
  ledger := agree.ledger

variable [Parent π]

theorem allocateAlong (agree : Agree rename on first second)
    (injective : Function.Injective rename) (layout : Layout) (path : List (Fin T.size))
    (covered : ∀ j ∈ path, on j) :
    (Store.allocateAlong layout (path.map rename) second).1 =
        (Store.allocateAlong layout path first).1 ∧
      Agree rename on (Store.allocateAlong layout path first).2
        (Store.allocateAlong layout (path.map rename) second).2 := by
  induction path generalizing first second with
  | nil =>
    simp only [List.map_nil, Store.allocateAlong, agree.parent]
    split <;> exact ⟨rfl, ⟨rfl, agree.trace, agree.ledger⟩⟩
  | cons j inner ih =>
    obtain ⟨here, behind⟩ := List.forall_mem_cons.1 covered
    simp only [List.map_cons, Store.allocateAlong, agree.ledger j here]
    split
    · exact ⟨rfl, agree.emit _⟩
    · obtain ⟨answer, after⟩ := ih agree behind
      rcases asked : Store.allocateAlong layout inner first with ⟨failure | addr, left⟩ <;>
        rcases asked' : Store.allocateAlong layout (inner.map rename) second with ⟨given, right⟩ <;>
        rw [asked, asked'] at answer after <;>
        obtain rfl := answer
      · exact ⟨rfl, after⟩
      · simp only [after.ledger j here]
        split <;> exact ⟨rfl, after.withLedger injective j _⟩

theorem deallocateAlong (agree : Agree rename on first second)
    (injective : Function.Injective rename) (addr : Nat) (layout : Layout)
    (path : List (Fin T.size)) (covered : ∀ j ∈ path, on j) :
    (Store.deallocateAlong addr layout (path.map rename) second).1 =
        (Store.deallocateAlong addr layout path first).1 ∧
      Agree rename on (Store.deallocateAlong addr layout path first).2
        (Store.deallocateAlong addr layout (path.map rename) second).2 := by
  induction path generalizing first second with
  | nil => exact ⟨rfl, ⟨congrArg (Parent.deallocate addr layout) agree.parent, agree.trace,
      agree.ledger⟩⟩
  | cons j inner ih =>
    obtain ⟨here, behind⟩ := List.forall_mem_cons.1 covered
    simp only [List.map_cons, Store.deallocateAlong, agree.ledger j here]
    split
    · exact ih (agree.withLedger injective j _) behind
    · exact ⟨rfl, agree.withLedger injective j _⟩

end Agree

/-- The parent grants no address twice, and none that is live in a ledger. -/
structure Unspoilt [Parent π] (store : Store T π) : Prop where
  parent : Parent.NeverReuses store.parent
  spent : ∀ i addr, (store.ledger i).isLive addr = true → Parent.Spent addr store.parent

namespace Unspoilt

variable [Parent π] {store after : Store T π} {addr : Nat} {layout : Layout}

theorem opened {parent : π} (fresh : Parent.NeverReuses parent)
    (budgets : Fin T.size → Option Nat) : Unspoilt (.opened budgets parent : Store T π) where
  parent := fresh
  spent i addr found := by
    rw [ledger_opened] at found
    cases (Std.ExtTreeMap.contains_empty).symm.trans found

/-- What the parent grants is live nowhere. -/
theorem isLive_eq_false (unspoilt : Unspoilt store) {parent : π} (proper : 0 < layout.align)
    (positive : layout.size ≠ 0)
    (granted : Parent.allocate layout store.parent = (some addr, parent)) (i : Fin T.size) :
    (store.ledger i).isLive addr = false := by
  rw [← Bool.not_eq_true]
  exact fun found => (unspoilt.spent i addr found).ne_of_granted proper positive granted rfl

theorem of_entered (unspoilt : Unspoilt store) (proper : 0 < layout.align)
    (granted : Parent.allocate layout store.parent = (some addr, after.parent))
    (ledgers : ∀ i, (after.ledger i).live = (store.ledger i).live ∨
      after.ledger i = ((store.ledger i).enter addr layout).2) : Unspoilt after where
  parent := unspoilt.parent.allocate proper granted
  spent i other found := by
    rcases ledgers i with same | entered
    · rw [Ledger.isLive, same] at found
      exact (unspoilt.spent i other found).allocate proper granted
    · rw [entered, Ledger.isLive_enter] at found
      rcases found with older | ⟨rfl, positive⟩
      · exact (unspoilt.spent i other older).allocate proper granted
      · exact unspoilt.parent.spent proper positive granted

theorem allocate (unspoilt : Unspoilt store) (handle : Handle T) (proper : 0 < layout.align) :
    Unspoilt (store.allocate handle layout).2 := by
  rcases asked : store.allocate handle layout with ⟨(_ | fault | wanted) | addr, after⟩
  · obtain ⟨ledgers, ⟨parent, _⟩ | ⟨full, _⟩⟩ := allocateAlong_refused asked
    · exact ⟨parent ▸ unspoilt.parent, fun i other found =>
        parent ▸ unspoilt.spent i other (ledgers i ▸ found)⟩
    · exact ⟨unspoilt.parent.allocate proper full, fun i other found =>
        (unspoilt.spent i other (ledgers i ▸ found)).allocate proper full⟩
  · obtain ⟨addr, _, j, inner, _, granted, _, _, _, ledgers⟩ :=
      allocateAlong_fault handle.path_nodup asked
    refine unspoilt.of_entered proper granted fun i => ?_
    rw [ledgers i]
    split
    · exact Or.inr rfl
    · exact Or.inl rfl
  · exact absurd (congrArg Prod.fst asked) (allocateAlong_ne_aborted _ _ _ _)
  · obtain ⟨granted, _, _, ledgers⟩ := allocateAlong_ok handle.path_nodup asked
    refine unspoilt.of_entered proper granted fun i => ?_
    rw [ledgers i]
    split
    · exact Or.inr rfl
    · exact Or.inl rfl

theorem deallocate (unspoilt : Unspoilt store) (handle : Handle T) (addr : Nat)
    (layout : Layout) : Unspoilt (store.deallocate handle addr layout).2 := by
  have shrinks : ∀ i other, ((store.deallocate handle addr layout).2.ledger i).isLive other = true →
      (store.ledger i).isLive other = true := by
    intro i other found
    rw [Store.deallocate, ledger_deallocateAlong addr layout _ handle.path_nodup] at found
    split at found
    · exact (Ledger.isLive_strike _ _ _ _ |>.1 found).1
    · exact found
  rcases parent_deallocate handle addr layout store with same | reached
  · exact ⟨same ▸ unspoilt.parent, fun i other found =>
      same ▸ unspoilt.spent i other (shrinks i other found)⟩
  · exact ⟨reached ▸ unspoilt.parent.deallocate addr layout, fun i other found =>
      reached ▸ (unspoilt.spent i other (shrinks i other found)).deallocate addr layout⟩

theorem setBudget (unspoilt : Unspoilt store) (i : Fin T.size) (budget : Option Nat) :
    Unspoilt (store.setBudget i budget) where
  parent := unspoilt.parent
  spent j other found := by
    rw [Ledger.isLive, live_setBudget] at found
    exact unspoilt.spent j other found

end Unspoilt

/-- A store in which a ledger without a budget has been put on top of ledger `i`, beside the store
`alone` in which it has not: the new ledger has the books that ledger `i` has alone, and ledger `i`
keeps its budget and its counts. -/
structure Wraps (i : Fin T.size) (alone : Store T π) (wrapped : Store (T.onTop i) π) : Prop where
  agree : Agree (beneath i) (· ≠ i) alone wrapped
  outer : wrapped.ledger (top i) = (alone.ledger i).unlimited
  underlies : (wrapped.ledger (beneath i i)).Underlies (alone.ledger i)

theorem Wraps.opened (i : Fin T.size) (budgets : Fin T.size → Option Nat) (parent : π) :
    Wraps i (.opened budgets parent) (.opened (budgetsOnTop i budgets) parent) := by
  have old : ∀ j, (Store.opened (budgetsOnTop i budgets) parent).ledger (beneath i j) =
      (Store.opened budgets parent).ledger j := by
    intro j
    rw [ledger_opened, ledger_opened, budgetsOnTop_beneath]
  refine ⟨⟨rfl, rfl, fun j _ => old j⟩, ?_, ?_⟩
  · rw [ledger_opened, ledger_opened, budgetsOnTop_top]
    rfl
  · rw [old]
    exact ⟨rfl, rfl, rfl, fun _ _ found => found⟩

namespace Wraps

variable {i : Fin T.size} {alone : Store T π} {wrapped : Store (T.onTop i) π}

/-- Nothing that is done off ledger `i` and alike on both sides disturbs the wrapping. -/
theorem of_agree {left : Store T π} {right : Store (T.onTop i) π} (wraps : Wraps i alone wrapped)
    (agree : Agree (beneath i) (· ≠ i) left right) (same : left.ledger i = alone.ledger i)
    (above : right.ledger (top i) = wrapped.ledger (top i))
    (below : right.ledger (beneath i i) = wrapped.ledger (beneath i i)) : Wraps i left right := by
  refine ⟨agree, ?_, ?_⟩
  · rw [above, same, wraps.outer]
  · rw [below, same]
    exact wraps.underlies

theorem withLedger (wraps : Wraps i alone wrapped) {books below : Ledger}
    (underlies : below.Underlies books) :
    Wraps i (alone.withLedger i books)
      ((wrapped.withLedger (beneath i i) below).withLedger (top i) books.unlimited) where
  agree := ((wraps.agree.withLedger_left (not_not_intro rfl) books).withLedger_right
    (fun _ differs same => differs (beneath_injective i same)) below).withLedger_right
    (fun j _ => beneath_ne_top j) _
  outer := by simp only [ledger_withLedger, ↓reduceIte]
  underlies := by
    simp only [ledger_withLedger, (beneath_ne_top i).symm, ↓reduceIte]
    exact underlies

/-- If only the outer ledger hears of a change, the inner one has to fit it as it is. -/
theorem withLedger_top (wraps : Wraps i alone wrapped) {books : Ledger}
    (underlies : (wrapped.ledger (beneath i i)).Underlies books) :
    Wraps i (alone.withLedger i books) (wrapped.withLedger (top i) books.unlimited) where
  agree := (wraps.agree.withLedger_left (not_not_intro rfl) books).withLedger_right
    (fun j _ => beneath_ne_top j) _
  outer := by simp only [ledger_withLedger, ↓reduceIte]
  underlies := by
    simp only [ledger_withLedger, (beneath_ne_top i).symm, ↓reduceIte]
    exact underlies

theorem setBudget (wraps : Wraps i alone wrapped) (j : Fin T.size) (budget : Option Nat) :
    Wraps i (alone.setBudget j budget) (wrapped.setBudget (beneath i j) budget) := by
  by_cases here : j = i
  · subst here
    have agree := (wraps.agree.withLedger_left (not_not_intro rfl)
      { alone.ledger j with budget }).withLedger_right
      (fun k differs same => differs (beneath_injective j same))
      { wrapped.ledger (beneath j j) with budget }
    refine ⟨agree, ?_, ?_⟩
    · simp only [Store.setBudget, ledger_withLedger, beneath_ne_top, ↓reduceIte, wraps.outer]
      rfl
    · simp only [Store.setBudget, ledger_withLedger, ↓reduceIte]
      exact ⟨rfl, wraps.underlies.allocations, wraps.underlies.releases, wraps.underlies.within⟩
  · have agree := wraps.agree.withLedger (beneath_injective i) j { alone.ledger j with budget }
    simp only [Store.setBudget, wraps.agree.ledger j here]
    refine wraps.of_agree agree ?_ ?_ ?_
    · rw [ledger_withLedger, if_neg here]
    · rw [ledger_withLedger, if_neg (beneath_ne_top j)]
    · rw [ledger_withLedger, if_neg (mt (@beneath_injective _ i _ _) here)]

variable [Parent π]

/-- A request that does not come by ledger `i` has the same answer. -/
theorem allocateAlong (wraps : Wraps i alone wrapped) (layout : Layout)
    {path : List (Fin T.size)} (off : i ∉ path) :
    (Store.allocateAlong layout (path.map (beneath i)) wrapped).1 =
        (Store.allocateAlong layout path alone).1 ∧
      Wraps i (Store.allocateAlong layout path alone).2
        (Store.allocateAlong layout (path.map (beneath i)) wrapped).2 := by
  obtain ⟨answer, agree⟩ := wraps.agree.allocateAlong (beneath_injective i) layout path
    fun j on same => off (same ▸ on)
  exact ⟨answer, wraps.of_agree agree (ledger_allocateAlong_of_not_mem _ _ _ _ off)
    (ledger_allocateAlong_of_not_mem _ _ _ _ (top_not_mem_map path))
    (ledger_allocateAlong_of_not_mem _ _ _ _ (beneath_not_mem_map off))⟩

theorem deallocateAlong (wraps : Wraps i alone wrapped) (addr : Nat) (layout : Layout)
    {path : List (Fin T.size)} (off : i ∉ path) :
    (Store.deallocateAlong addr layout (path.map (beneath i)) wrapped).1 =
        (Store.deallocateAlong addr layout path alone).1 ∧
      Wraps i (Store.deallocateAlong addr layout path alone).2
        (Store.deallocateAlong addr layout (path.map (beneath i)) wrapped).2 := by
  obtain ⟨answer, agree⟩ := wraps.agree.deallocateAlong (beneath_injective i) addr layout path
    fun j on same => off (same ▸ on)
  exact ⟨answer, wraps.of_agree agree (ledger_deallocateAlong_of_not_mem _ _ _ _ _ off)
    (ledger_deallocateAlong_of_not_mem _ _ _ _ _ (top_not_mem_map path))
    (ledger_deallocateAlong_of_not_mem _ _ _ _ _ (beneath_not_mem_map off))⟩

/-- A request at the new ledger has the answer that ledger `i` would give alone: what the parent
grants is live in neither of them. -/
theorem allocate_top (wraps : Wraps i alone wrapped) (unspoilt : Unspoilt wrapped)
    {layout : Layout} (proper : 0 < layout.align) :
    (wrapped.allocate (some (top i)) layout).1 = (alone.allocate (some i) layout).1 ∧
      Wraps i (alone.allocate (some i) layout).2
        (wrapped.allocate (some (top i)) layout).2 := by
  rw [allocate_some layout alone, allocate_some layout wrapped, wraps.outer,
    if_neg (Ledger.unlimited_not_spent _), below_top, allocate_some]
  by_cases spent : (alone.ledger i).IsSpent
  · rw [if_pos spent, if_pos (wraps.underlies.spent_iff.2 spent)]
    exact ⟨rfl, wraps.of_agree (wraps.agree.emit _) rfl rfl rfl⟩
  · rw [if_neg spent, if_neg (mt wraps.underlies.spent_iff.1 spent)]
    obtain ⟨answer, after⟩ := wraps.allocateAlong layout (not_mem_handlePath_below i)
    rw [← handlePath_below_beneath] at answer after
    change (wrapped.allocate _ layout).1 = (alone.allocate _ layout).1 at answer
    change Wraps i (alone.allocate _ layout).2 (wrapped.allocate _ layout).2 at after
    rcases asked : alone.allocate (T.below i) layout with ⟨failure | addr, left⟩ <;>
      rcases asked' : wrapped.allocate ((T.onTop i).below (beneath i i)) layout with
        ⟨given, right⟩ <;>
      rw [asked, asked'] at answer after <;>
      obtain rfl := answer
    · exact ⟨rfl, after⟩
    · have still := ledger_allocate_below layout wrapped (beneath i i)
      rw [asked'] at still
      have granted := (allocateAlong_ok (Handle.path_nodup _) asked').1
      obtain ⟨accepted, below, underlies⟩ := after.underlies.enter fun positive =>
        still ▸ unspoilt.isLive_eq_false proper positive granted (beneath i i)
      obtain ⟨books, entered⟩ : ∃ books, (left.ledger i).enter addr layout = (none, books) :=
        ⟨_, Prod.ext accepted rfl⟩
      obtain ⟨inner, entered'⟩ : ∃ inner,
          (right.ledger (beneath i i)).enter addr layout = (none, inner) := ⟨_, Prod.ext below rfl⟩
      rw [entered, entered'] at underlies
      simp only [entered, entered', ledger_withLedger, beneath_ne_top, ↓reduceIte, after.outer,
        Ledger.enter_unlimited, true_and]
      exact after.withLedger underlies

/-- A return at the new ledger has the answer that ledger `i` would give alone: what the new ledger
accepts is accepted below, and what it refuses is not heard of there. -/
theorem deallocate_top (wraps : Wraps i alone wrapped) (addr : Nat) (layout : Layout) :
    (wrapped.deallocate (some (top i)) addr layout).1 =
        (alone.deallocate (some i) addr layout).1 ∧
      Wraps i (alone.deallocate (some i) addr layout).2
        (wrapped.deallocate (some (top i)) addr layout).2 := by
  rw [deallocate_some addr layout alone, deallocate_some addr layout wrapped, wraps.outer,
    Ledger.strike_unlimited]
  rcases struck : (alone.ledger i).strike addr layout with ⟨_ | fault, books⟩
  · obtain ⟨below, underlies⟩ := wraps.underlies.strike (congrArg Prod.fst struck)
    obtain ⟨inner, struck'⟩ : ∃ inner,
        (wrapped.ledger (beneath i i)).strike addr layout = (none, inner) := ⟨_, Prod.ext below rfl⟩
    rw [struck, struck'] at underlies
    simp only [below_top, deallocate_some, ledger_withLedger, (beneath_ne_top i).symm, ↓reduceIte,
      struck']
    have swapped : (wrapped.withLedger (top i) books.unlimited).withLedger (beneath i i) inner =
        (wrapped.withLedger (beneath i i) inner).withLedger (top i) books.unlimited :=
      withLedger_comm _ (beneath_ne_top i).symm _ _
    rw [swapped, Store.deallocate, handlePath_below_beneath]
    exact (wraps.withLedger underlies).deallocateAlong addr layout (not_mem_handlePath_below i)
  · have underlies := wraps.underlies.strike_fault (congrArg Prod.fst struck)
    rw [struck] at underlies
    exact ⟨rfl, wraps.withLedger_top underlies⟩

theorem call (wraps : Wraps i alone wrapped) (unspoilt : Unspoilt wrapped) {call : Call T}
    (fits : call.Fits i) :
    (wrapped.call (call.through i)).1 = (alone.call call).1 ∧
      Wraps i (alone.call call).2 (wrapped.call (call.through i)).2 ∧
        Unspoilt (wrapped.call (call.through i)).2 := by
  cases call with
  | allocate j layout =>
    obtain ⟨reached, proper⟩ := fits
    have both : (wrapped.allocate (some (if j = i then top i else beneath i j)) layout).1 =
          (alone.allocate (some j) layout).1 ∧
        Wraps i (alone.allocate (some j) layout).2
          (wrapped.allocate (some (if j = i then top i else beneath i j)) layout).2 := by
      split
      · next here => exact here ▸ wraps.allocate_top unspoilt proper
      · next here =>
        rw [Store.allocate, Handle.path, path_beneath]
        exact wraps.allocateAlong layout (reached.resolve_left here)
    rw [Call.through, call_allocate, call_allocate, both.1]
    exact ⟨rfl, both.2, unspoilt.allocate _ proper⟩
  | deallocate j addr layout =>
    have both : (wrapped.deallocate (some (if j = i then top i else beneath i j)) addr layout).1 =
          (alone.deallocate (some j) addr layout).1 ∧
        Wraps i (alone.deallocate (some j) addr layout).2
          (wrapped.deallocate (some (if j = i then top i else beneath i j)) addr layout).2 := by
      split
      · next here => exact here ▸ wraps.deallocate_top addr layout
      · next here =>
        rw [Store.deallocate, Handle.path, path_beneath]
        exact wraps.deallocateAlong addr layout (fits.resolve_left here)
    rw [Call.through, call_deallocate, call_deallocate, both.1]
    exact ⟨rfl, both.2, unspoilt.deallocate _ addr layout⟩
  | setBudget j budget => exact ⟨rfl, wraps.setBudget j budget, unspoilt.setBudget _ budget⟩

theorem calls (wraps : Wraps i alone wrapped) (unspoilt : Unspoilt wrapped)
    (calls : List (Call T)) (fits : ∀ call ∈ calls, call.Fits i) :
    (Store.calls (calls.map (Call.through i)) wrapped).1 = (Store.calls calls alone).1 ∧
      Wraps i (Store.calls calls alone).2
        (Store.calls (calls.map (Call.through i)) wrapped).2 := by
  induction calls generalizing alone wrapped with
  | nil => exact ⟨rfl, wraps⟩
  | cons call later ih =>
    obtain ⟨here, behind⟩ := List.forall_mem_cons.1 fits
    obtain ⟨answer, after, still⟩ := wraps.call unspoilt here
    obtain ⟨answers, left⟩ := ih after still behind
    simp only [List.map_cons, Store.calls, answer, answers, left, and_self]

end Wraps

end Store

/-- Over a parent that grants no address twice, the users of a ledger who move to a ledger without a
budget on top of it get the answers and write the events that they would have got and written, call
by call. The new ledger has the books that the old one would have; the old one keeps the budget and
the counts that it would have, and holds at least the blocks of the new one. -/
theorem transparent_calls {T : Layering} {π : Type} [Parent π] (i : Fin T.size)
    (budgets : Fin T.size → Option Nat) {parent : π} (fresh : Parent.NeverReuses parent)
    (calls : List (Call T)) (fits : ∀ call ∈ calls, call.Fits i) :
    let alone := Store.calls calls (.opened budgets parent)
    let wrapped := Store.calls (calls.map (Call.through i))
      (.opened (budgetsOnTop i budgets) parent)
    wrapped.1 = alone.1 ∧ wrapped.2.events = alone.2.events ∧
      (∀ j, j ≠ i → wrapped.2.ledger (beneath i j) = alone.2.ledger j) ∧
      wrapped.2.ledger (top i) = { alone.2.ledger i with budget := none } ∧
      (wrapped.2.ledger (beneath i i)).Underlies (alone.2.ledger i) ∧
      ∀ (addr : Nat) (layout : Layout), (wrapped.2.ledger (top i)).live[addr]? = some layout →
        (wrapped.2.ledger (beneath i i)).live[addr]? = some layout := by
  intro alone wrapped
  obtain ⟨answers, wraps⟩ := (Store.Wraps.opened i budgets parent).calls
    (.opened fresh (budgetsOnTop i budgets)) calls fits
  refine ⟨answers, congrArg List.reverse wraps.agree.trace, wraps.agree.ledger, wraps.outer,
    wraps.underlies, fun addr layout found => ?_⟩
  rw [wraps.outer] at found
  exact wraps.underlies.within addr layout found

/-- A ledger with a budget of three, whose user returns a block with the wrong layout and again with
the right one, asks for a block without bytes, and goes on when the budget is spent and raised. -/
theorem transparent_calls_single :
    let i : Fin Layering.single.size := (0 : Fin 1)
    let calls : List (Call .single) := [.allocate i ⟨24, 8⟩, .deallocate i 4096 ⟨16, 8⟩,
      .deallocate i 4096 ⟨24, 8⟩, .allocate i ⟨0, 1⟩, .allocate i ⟨32, 16⟩, .allocate i ⟨8, 8⟩,
      .setBudget i (some 1), .deallocate i 4128 ⟨32, 16⟩, .allocate i ⟨8, 8⟩]
    let start := Arena.ofCapacity 4096
    Parent.NeverReuses start ∧ (∀ call ∈ calls, call.Fits i) ∧
      (Store.calls (calls.map (Call.through i))
        (.opened (budgetsOnTop i fun _ => some 3) start)).1 =
      [.ok (some 4096), .error (.fault (.layoutMismatch 4096 16 24)),
        .error (.fault (.notLive 4096)), .ok (some 4120), .ok (some 4128), .error .refused,
        .ok none, .ok none, .ok (some 4160)] := by
  intro i calls start
  have checked : (calls.all fun call => decide (call.Fits i)) = true := by decide +kernel
  have fits : ∀ call ∈ calls, call.Fits i := fun call on =>
    of_decide_eq_true (List.all_eq_true.1 checked call on)
  refine ⟨start.neverReuses, fits, ?_⟩
  rw [(transparent_calls i (fun _ => some 3) start.neverReuses calls fits).1]
  decide +kernel

end ChainLedger
