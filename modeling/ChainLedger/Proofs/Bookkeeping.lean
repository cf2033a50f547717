import ChainLedger.Proofs.History

set_option autoImplicit false

namespace ChainLedger

/-- A call that reached a ledger, with what came of it there. -/
inductive Dealing where
  /-- A request for a block: what the level below answered, if it was asked at all, and what the
  ledger answered. -/
  | asked (layout : Layout) (below : Option (Except Failure Nat)) (answer : Except Failure Nat)
  /-- A return of a block, with the fault that the ledger itself found. -/
  | returned (addr : Nat) (layout : Layout) (fault : Option Fault)
  /-- A new budget. -/
  | budgeted (budget : Option Nat)
deriving DecidableEq

def Call.ledger {T : Layering} : Call T → Fin T.size
  | .allocate i _ => i
  | .deallocate i _ _ => i
  | .setBudget i _ => i

namespace Dealing

/-- How a call ends that was made on the ledger itself. A return that the ledger accepts can still
end in a fault of a level below. -/
def Ends : Dealing → Except Failure (Option Nat) → Prop
  | .asked _ _ answer, result => result = answer.map some
  | .returned _ _ (some fault), result => result = .error (.fault fault)
  | .returned _ _ none, result => result = .ok none ∨ ∃ fault, result = .error (.fault fault)
  | .budgeted _, result => result = .ok none

/-- A block was obtained from the level below, whatever the ledger then found. -/
@[simp] def obtains : Dealing → Bool
  | .asked _ (some (.ok _)) _ => true
  | _ => false

/-- A block without bytes was asked for and granted. -/
@[simp] def isEmptyGrant : Dealing → Bool
  | .asked layout _ (.ok _) => layout.size = 0
  | _ => false

/-- The level below handed out a block that is live, and the ledger found the fault. -/
@[simp] def isCollision : Dealing → Bool
  | .asked _ (some (.ok _)) (.error (.fault _)) => true
  | _ => false

/-- A block without bytes was given back. -/
@[simp] def isEmptyReturn : Dealing → Bool
  | .returned _ layout _ => layout.size = 0
  | _ => false

@[simp] def isAccepted : Dealing → Bool
  | .returned _ _ none => true
  | _ => false

/-- A block was given back with another layout than the one on record. -/
@[simp] def isMismatch : Dealing → Bool
  | .returned _ _ (some (.layoutMismatch ..)) => true
  | _ => false

@[simp] def isSetting : Dealing → Bool
  | .budgeted _ => true
  | _ => false

end Dealing

namespace Ledger

/-- What a ledger does to its books in each way in which a call can end there. -/
inductive Books : Ledger → Dealing → Ledger → Prop where
  | turnedAway {layout : Layout} {before : Ledger} (spent : before.IsSpent) :
      Books before (.asked layout none (.error .refused)) before
  | failed {layout : Layout} {failure : Failure} {before : Ledger} (unspent : ¬ before.IsSpent) :
      Books before (.asked layout (some (.error failure)) (.error failure)) before
  | granted {layout : Layout} {addr : Nat} {before after : Ledger} (unspent : ¬ before.IsSpent)
      (entered : before.enter addr layout = (none, after)) :
      Books before (.asked layout (some (.ok addr)) (.ok addr)) after
  | collided {layout : Layout} {addr : Nat} {fault : Fault} {before after : Ledger}
      (unspent : ¬ before.IsSpent) (entered : before.enter addr layout = (some fault, after)) :
      Books before (.asked layout (some (.ok addr)) (.error (.fault fault))) after
  | returned {layout : Layout} {addr : Nat} {fault : Option Fault} {before after : Ledger}
      (struck : before.strike addr layout = (fault, after)) :
      Books before (.returned addr layout fault) after
  | budgeted {budget : Option Nat} {before : Ledger} :
      Books before (.budgeted budget) { before with budget }

/-- What a ledger does to its books over several calls. -/
inductive BooksAll : Ledger → List Dealing → Ledger → Prop where
  | nil {ledger : Ledger} : BooksAll ledger [] ledger
  | cons {dealing : Dealing} {later : List Dealing} {before between after : Ledger}
      (first : Books before dealing between) (rest : BooksAll between later after) :
      BooksAll before (dealing :: later) after

theorem BooksAll.of_append {earlier later : List Dealing} {before after : Ledger}
    (books : BooksAll before (earlier ++ later) after) :
    ∃ between, BooksAll before earlier between ∧ BooksAll between later after := by
  induction earlier generalizing before with
  | nil => exact ⟨before, .nil, books⟩
  | cons dealing earlier ih =>
    cases books with
    | cons first rest =>
      obtain ⟨between, front, back⟩ := ih rest
      exact ⟨between, .cons first front, back⟩

/-- How one call changes the counts: every block obtained is an allocation and every return that the
ledger accepts is a release, and the live blocks follow but for empty blocks and for faults. -/
theorem Books.counts {dealing : Dealing} {before after : Ledger}
    (books : Books before dealing after) :
    after.allocations = before.allocations + (if dealing.obtains then 1 else 0) ∧
      after.releases = before.releases + (if dealing.isAccepted then 1 else 0) ∧
      after.liveCount + (if dealing.isEmptyGrant then 1 else 0) +
          (if dealing.isCollision then 1 else 0) + (if dealing.isMismatch then 1 else 0) +
          (if dealing.isAccepted then 1 else 0) =
        before.liveCount + (if dealing.obtains then 1 else 0) +
          (if dealing.isEmptyReturn then 1 else 0) := by
  cases books with
  | turnedAway | failed | budgeted => exact ⟨rfl, rfl, rfl⟩
  | @granted layout addr _ _ unspent entered =>
    obtain rfl : (before.enter addr layout).2 = after := congrArg Prod.snd entered
    have accepted := enter_accepted_iff.1 (congrArg Prod.fst entered)
    have live := before.liveCount_enter addr layout
    refine ⟨before.allocations_enter addr layout, before.releases_enter addr layout, ?_⟩
    by_cases empty : layout.size = 0
    · simpa [empty] using live
    · have free := accepted.resolve_left empty
      simpa [empty, free] using live
  | @collided layout addr fault _ _ unspent entered =>
    obtain rfl : (before.enter addr layout).2 = after := congrArg Prod.snd entered
    obtain ⟨-, -, held⟩ := eq_of_enter_fault (congrArg Prod.fst entered)
    have live := before.liveCount_enter addr layout
    refine ⟨before.allocations_enter addr layout, before.releases_enter addr layout, ?_⟩
    simpa [held] using live
  | @returned layout addr fault _ _ struck =>
    obtain ⟨rfl, rfl⟩ : (before.strike addr layout).1 = fault ∧
        (before.strike addr layout).2 = after := Prod.mk.inj struck
    have live := before.liveCount_strike addr layout
    have released := before.releases_strike addr layout
    refine ⟨before.allocations_strike addr layout, ?_, ?_⟩
    · rw [released]
      cases (before.strike addr layout).1 <;> rfl
    by_cases empty : layout.size = 0
    · simpa [strike_empty empty, empty] using live
    rcases found : before.live[addr]? with _ | recorded
    · simp [strike, empty, found]
    · by_cases same : recorded = layout
      · simpa [strike, empty, found, same, isLive_eq] using live
      · simpa [strike, empty, found, same, isLive_eq] using live

/-- The counts after several calls. -/
theorem BooksAll.counts {dealings : List Dealing} {before after : Ledger}
    (books : BooksAll before dealings after) :
    after.allocations = before.allocations + dealings.countP Dealing.obtains ∧
      after.releases = before.releases + dealings.countP Dealing.isAccepted ∧
      after.liveCount + dealings.countP Dealing.isEmptyGrant +
          dealings.countP Dealing.isCollision + dealings.countP Dealing.isMismatch +
          dealings.countP Dealing.isAccepted =
        before.liveCount + dealings.countP Dealing.obtains +
          dealings.countP Dealing.isEmptyReturn := by
  induction books with
  | nil => exact ⟨rfl, rfl, rfl⟩
  | cons first rest ih =>
    obtain ⟨allocations, releases, live⟩ := first.counts
    obtain ⟨allocations', releases', live'⟩ := ih
    simp only [List.countP_cons]
    omega

/-- A call that sets no budget takes one off it exactly if it obtains a block, and none obtains a
block from a spent budget. -/
theorem Books.budget {dealing : Dealing} {before after : Ledger}
    (books : Books before dealing after) (unset : dealing.isSetting = false) :
    after.budget = (if dealing.obtains then before.budget.map (· - 1) else before.budget) ∧
      (dealing.obtains = true → ¬ before.IsSpent) := by
  cases books with
  | turnedAway => exact ⟨rfl, nofun⟩
  | failed unspent => exact ⟨rfl, nofun⟩
  | @granted layout addr _ _ unspent entered =>
    obtain rfl : (before.enter addr layout).2 = after := congrArg Prod.snd entered
    exact ⟨before.budget_enter addr layout, fun _ => unspent⟩
  | @collided layout addr _ _ _ unspent entered =>
    obtain rfl : (before.enter addr layout).2 = after := congrArg Prod.snd entered
    exact ⟨before.budget_enter addr layout, fun _ => unspent⟩
  | @returned layout addr _ _ _ struck =>
    obtain rfl : (before.strike addr layout).2 = after := congrArg Prod.snd struck
    exact ⟨before.budget_strike addr layout, nofun⟩
  | budgeted => cases unset

/-- What is left of a budget once some blocks have been obtained, no more than it allows. -/
def Remains (obtained : Nat) : Option Nat → Option Nat → Prop
  | none, left => left = none
  | some budget, left => obtained ≤ budget ∧ left = some (budget - obtained)

theorem remains_zero (budget : Option Nat) : Remains 0 budget budget := by
  cases budget with
  | none => rfl
  | some n => exact ⟨Nat.zero_le n, rfl⟩

theorem remains_one {budget : Option Nat} (left : budget ≠ some 0) :
    Remains 1 budget (budget.map (· - 1)) := by
  cases budget with
  | none => rfl
  | some n =>
    have positive : n ≠ 0 := fun zero => left (congrArg some zero)
    exact ⟨Nat.one_le_iff_ne_zero.2 positive, rfl⟩

theorem Remains.add {first second : Nat} {budget between left : Option Nat}
    (some_taken : Remains first budget between) (more_taken : Remains second between left) :
    Remains (first + second) budget left := by
  cases budget with
  | none =>
    obtain rfl : between = none := some_taken
    exact more_taken
  | some n =>
    obtain ⟨enough, rfl⟩ := some_taken
    obtain ⟨still, rfl⟩ : second ≤ n - first ∧ left = some (n - first - second) := more_taken
    exact ⟨by omega, by rw [Nat.sub_sub]⟩

theorem Remains.eq_map_pred {budget left : Option Nat} (remains : Remains 1 budget left) :
    left = budget.map (· - 1) := by
  cases budget with
  | none => exact remains
  | some n => exact remains.2

/-- A budget is used up exactly if it was as large as what has been taken off it. -/
theorem Remains.eq_zero_iff {taken : Nat} {budget left : Option Nat}
    (remains : Remains taken budget left) : left = some 0 ↔ budget = some taken := by
  cases budget with
  | none =>
    obtain rfl : left = none := remains
    simp only [reduceCtorEq]
  | some n =>
    obtain ⟨enough, rfl⟩ := remains
    simp only [Option.some.injEq]
    omega

theorem BooksAll.budget {dealings : List Dealing} {before after : Ledger}
    (books : BooksAll before dealings after)
    (unset : ∀ dealing ∈ dealings, dealing.isSetting = false) :
    Remains (dealings.countP Dealing.obtains) before.budget after.budget := by
  induction books with
  | nil => exact remains_zero _
  | @cons dealing later before between after first rest ih =>
    obtain ⟨here, unset⟩ := List.forall_mem_cons.1 unset
    obtain ⟨taken, unspent⟩ := first.budget here
    have behind := ih unset
    rw [taken] at behind
    rw [List.countP_cons]
    cases obtained : dealing.obtains with
    | false =>
      rw [obtained] at behind
      exact behind
    | true =>
      rw [obtained] at behind
      rw [if_pos rfl, Nat.add_comm]
      -- The budget was not spent, so taking one off it does not stop at zero.
      exact (remains_one (unspent obtained)).add behind

end Ledger

namespace Store

variable {T : Layering} {π : Type}

/-- Whether a request that is made along a path comes by ledger `i`. -/
def requestComesBy (i : Fin T.size) : List (Fin T.size) → Store T π → Bool
  | [], _ => false
  | j :: inner, store => j = i || !decide (store.ledger j).IsSpent && requestComesBy i inner store

theorem requestComesBy_self (i : Fin T.size) (store : Store T π) :
    requestComesBy i (T.path i) store = true := by
  simp only [Layering.path_eq i, requestComesBy, decide_true, Bool.true_or]

theorem comesBy_self (i : Fin T.size) (addr : Nat) (layout : Layout) (store : Store T π) :
    comesBy i addr layout (T.path i) store = true := by
  simp only [Layering.path_eq i, comesBy, decide_true, Bool.true_or]

variable [Parent π]

/-- What comes of a call at ledger `i`, if the call reaches it. -/
def dealing? (i : Fin T.size) (store : Store T π) : Call T → Option Dealing
  | .allocate j layout =>
      if requestComesBy i (T.path j) store then
        some (.asked layout
          (if (store.ledger i).IsSpent then none else some (store.allocate (T.below i) layout).1)
          (store.allocate (some i) layout).1)
      else none
  | .deallocate j addr layout =>
      if comesBy i addr layout (T.path j) store then
        some (.returned addr layout ((store.ledger i).strike addr layout).1)
      else none
  | .setBudget j budget => if j = i then some (.budgeted budget) else none

/-- What comes at ledger `i` of calls that are answered one after the other. -/
def dealings (i : Fin T.size) : List (Call T) → Store T π → List Dealing
  | [], _ => []
  | call :: later, store =>
      (store.dealing? i call).toList ++ dealings i later (store.call call).2

section Levels

variable {store : Store T π} {i : Fin T.size}

/-- What comes of a request at a ledger on the parent is what the parent answers, unless the budget
is spent. -/
theorem dealing?_allocate_of_bottom (bottom : T.below i = none) (layout : Layout) :
    store.dealing? i (.allocate i layout) = some (.asked layout
      (if (store.ledger i).IsSpent then none
        else some ((Parent.allocate layout store.parent).1.elim (.error .refused) .ok))
      (store.allocate (some i) layout).1) := by
  rw [dealing?, requestComesBy_self, if_pos rfl, bottom, answer_allocate_none]

/-- A ledger is granted a block exactly if the request comes by, finds the budget unspent and is
granted by the level below. -/
theorem grantAt_eq (layout : Layout) (j : Fin T.size) :
    grantAt i layout (T.path j) store =
      if requestComesBy i (T.path j) store = true ∧ ¬ (store.ledger i).IsSpent then
        (store.allocate (T.below i) layout).1.toOption
      else none := by
  have self : grantAt i layout (T.path i) store =
      if requestComesBy i (T.path i) store = true ∧ ¬ (store.ledger i).IsSpent then
        (store.allocate (T.below i) layout).1.toOption
      else none := by
    rw [requestComesBy_self, Layering.path_eq, grantAt, if_pos rfl]
    by_cases spent : (store.ledger i).IsSpent
    · rw [if_pos spent, if_neg fun both => both.2 spent]
    · rw [if_neg spent, if_pos ⟨rfl, spent⟩]
      rfl
  induction j using Layering.induction_inward with
  | bottom j stands =>
    by_cases here : j = i
    · exact here ▸ self
    · simp only [Layering.path_of_below_none stands, grantAt, requestComesBy, here, decide_false,
        Bool.and_false, Bool.or_self, Bool.false_eq_true, false_and, ↓reduceIte, ite_self]
  | above j k stands ih =>
    by_cases here : j = i
    · exact here ▸ self
    · rw [Layering.path_of_below_some stands, grantAt, requestComesBy, if_neg here, ih]
      by_cases spent : (store.ledger j).IsSpent
      · simp only [spent, here, decide_true, decide_false, Bool.not_true, Bool.false_and,
          Bool.or_self, Bool.false_eq_true, false_and, ↓reduceIte]
      · simp only [spent, here, decide_false, Bool.not_false, Bool.true_and, Bool.false_or,
          ↓reduceIte]

/-- A request that reaches a ledger is dealt with there as the books say. -/
theorem books_allocate {layout : Layout} {j : Fin T.size}
    (comes : requestComesBy i (T.path j) store = true) :
    (store.ledger i).Books (.asked layout
        (if (store.ledger i).IsSpent then none else some (store.allocate (T.below i) layout).1)
        (store.allocate (some i) layout).1)
      ((store.allocate (some j) layout).2.ledger i) := by
  have after : (store.allocate (some j) layout).2.ledger i = _ :=
    ledger_allocateAlong (i := i) layout (T.path j) (T.path_nodup j) store
  rw [grantAt_eq, comes] at after
  -- What happens below leaves the ledger alone, so the block is entered in the books as they were.
  have untouched := ledger_allocate_below layout store i
  rw [allocate_some layout store i]
  by_cases spent : (store.ledger i).IsSpent
  · rw [if_neg fun both => both.2 spent] at after
    rw [if_pos spent, if_pos spent, after]
    exact .turnedAway spent
  · rw [if_pos ⟨rfl, spent⟩] at after
    rw [if_neg spent, if_neg spent]
    rcases asked : store.allocate (T.below i) layout with ⟨failure | addr, between⟩
    · rw [asked] at after
      rw [after]
      exact .failed spent
    · rw [asked] at after untouched
      replace untouched : between.ledger i = store.ledger i := untouched
      rw [after]
      simp only [untouched, Except.toOption]
      rcases entered : (store.ledger i).enter addr layout with ⟨_ | fault, left⟩
      · exact .granted spent entered
      · exact .collided spent entered

/-- A call changes the books of a ledger exactly by what comes of it there. -/
theorem books_call (call : Call T) (store : Store T π) :
    match store.dealing? i call with
    | none => (store.call call).2.ledger i = store.ledger i
    | some dealing => (store.ledger i).Books dealing ((store.call call).2.ledger i) := by
  cases call with
  | allocate j layout =>
    rw [call_allocate, dealing?]
    cases comes : requestComesBy i (T.path j) store with
    | true => exact books_allocate comes
    | false =>
      have after := ledger_allocateAlong (i := i) layout (T.path j) (T.path_nodup j) store
      rw [grantAt_eq, comes] at after
      exact after
  | deallocate j addr layout =>
    have after := ledger_deallocateAlong (i := i) addr layout (T.path j) (T.path_nodup j) store
    rw [call_deallocate, dealing?]
    cases comes : comesBy i addr layout (T.path j) store with
    | true =>
      rw [comes, if_pos rfl] at after
      exact after ▸ .returned rfl
    | false =>
      rw [comes] at after
      exact after
  | setBudget j budget =>
    have after : (store.call (.setBudget j budget)).2.ledger i = _ :=
      store.ledger_withLedger j i _
    rw [dealing?, after]
    by_cases here : j = i
    · subst here
      simp only [↓reduceIte]
      exact .budgeted
    · simp only [here, ↓reduceIte]

/-- Over a run of calls a ledger changes its books by what comes of each of them there. -/
theorem books_calls (calls : List (Call T)) (store : Store T π) :
    (store.ledger i).BooksAll (dealings i calls store) ((Store.calls calls store).2.ledger i) := by
  induction calls generalizing store with
  | nil => exact .nil
  | cons call later ih =>
    have here := books_call (i := i) call store
    have behind := ih (store.call call).2
    simp only [Store.calls, dealings]
    cases dealt : store.dealing? i call with
    | none =>
      rw [dealt] at here
      rw [← here]
      exact behind
    | some dealing =>
      rw [dealt] at here
      exact .cons here behind

/-- A call on the ledger itself reaches it, and ends as it was dealt with there. -/
theorem ends_call (call : Call T) (store : Store T π) :
    ∃ dealing, store.dealing? call.ledger call = some dealing ∧
      dealing.Ends (store.call call).1 := by
  cases call with
  | allocate j layout =>
    refine ⟨_, if_pos (requestComesBy_self j store), ?_⟩
    rw [call_allocate]
    rfl
  | deallocate j addr layout =>
    refine ⟨_, if_pos (comesBy_self j addr layout store), ?_⟩
    show Dealing.Ends (.returned addr layout ((store.ledger j).strike addr layout).1) _
    rcases struck : (store.ledger j).strike addr layout with ⟨_ | fault, left⟩
    · rw [call_deallocate]
      show _ ∨ _
      cases (store.deallocate (some j) addr layout).1 with
      | none => exact Or.inl rfl
      | some fault => exact Or.inr ⟨fault, rfl⟩
    · exact call_of_strike_fault (congrArg Prod.fst struck)
  | setBudget j budget => exact ⟨.budgeted budget, if_pos rfl, rfl⟩

theorem length_dealings_le (calls : List (Call T)) (store : Store T π) :
    (dealings i calls store).length ≤ calls.length := by
  induction calls generalizing store with
  | nil => exact Nat.le_refl 0
  | cons call later ih =>
    have behind := ih (store.call call).2
    have once := (store.dealing? i call).length_toList_le
    simp only [dealings, List.length_append, List.length_cons]
    omega

end Levels

end Store

/-- The counts and the budget of a ledger are those of the dealings since it was opened. -/
structure Ledger.Balances (ledger : Ledger) (dealings : List Dealing) : Prop where
  balance : ledger.allocations + dealings.countP Dealing.isEmptyReturn =
    ledger.liveCount + ledger.releases + dealings.countP Dealing.isEmptyGrant +
      dealings.countP Dealing.isCollision + dealings.countP Dealing.isMismatch
  allocations : ledger.allocations = dealings.countP Dealing.obtains
  releases : ledger.releases = dealings.countP Dealing.isAccepted
  budget : ∀ earlier budget later, dealings = earlier ++ .budgeted budget :: later →
    (∀ dealing ∈ later, dealing.isSetting = false) →
    Ledger.Remains (later.countP Dealing.obtains) budget ledger.budget

theorem Ledger.Balances.of_books {budget : Option Nat} {ledger : Ledger} {dealings : List Dealing}
    (books : (Ledger.opened none).BooksAll (.budgeted budget :: dealings) ledger) :
    ledger.Balances (.budgeted budget :: dealings) := by
  obtain ⟨allocations, releases, live⟩ := books.counts
  have empty : (Ledger.opened none).liveCount = 0 := Std.ExtTreeMap.size_empty
  simp only [Ledger.opened, Nat.zero_add] at allocations releases
  rw [empty, Nat.zero_add] at live
  refine ⟨?_, allocations, releases, fun earlier last later shape unset => ?_⟩
  · omega
  · rw [shape] at books
    obtain ⟨between, -, set⟩ := books.of_append
    cases set with
    | cons first rest =>
      cases first with
      | budgeted => exact rest.budget unset

/-- Whatever the parent answers and whatever is asked of the ledgers, what came of the calls at one
of them since it was opened decides its counts and its budget, and what comes of a further call
decides whether the budget changes. Of a request on a ledger on the parent comes what the parent
answers. -/
theorem ledger_balances_dealings {T : Layering} {π : Type} [Parent π]
    (budgets : Fin T.size → Option Nat) (parent : π) (calls : List (Call T)) (i : Fin T.size) :
    let start : Store T π := .opened budgets parent
    let after := (Store.calls calls start).2
    (after.ledger i).Balances (.budgeted (budgets i) :: Store.dealings i calls start) ∧
      (Store.dealings i calls start).length ≤ calls.length ∧
      (∀ call, call.ledger = i → ∃ dealing, after.dealing? i call = some dealing ∧
        dealing.Ends (after.call call).1) ∧
      (∀ call, (∀ dealing ∈ after.dealing? i call,
          dealing.obtains = false ∧ dealing.isSetting = false) →
        ((after.call call).2.ledger i).budget = (after.ledger i).budget) ∧
      (T.below i = none → ∀ layout, after.dealing? i (.allocate i layout) = some (.asked layout
        (if (after.ledger i).IsSpent then none
          else some ((Parent.allocate layout after.parent).1.elim (.error .refused) .ok))
        (after.allocate (some i) layout).1)) := by
  intro start after
  have opening : (Ledger.opened none).Books (.budgeted (budgets i)) (start.ledger i) := by
    rw [Store.ledger_opened]
    exact .budgeted
  have books : (Ledger.opened none).BooksAll (.budgeted (budgets i) :: Store.dealings i calls start)
      (after.ledger i) :=
    .cons opening (Store.books_calls calls start)
  refine ⟨.of_books books, Store.length_dealings_le calls start,
    fun call here => here ▸ Store.ends_call call after, fun call idle => ?_,
    Store.dealing?_allocate_of_bottom⟩
  have changed := Store.books_call (i := i) call after
  cases dealt : after.dealing? i call with
  | none =>
    rw [dealt] at changed
    rw [changed]
  | some dealing =>
    rw [dealt] at changed
    obtain ⟨nothing, unset⟩ := idle dealing dealt
    have budget := (Ledger.Books.budget changed unset).1
    rw [budget, nothing]
    rfl

/-- The parent hands out one block twice, and the ledger, which has a budget of two, finds the fault
the second time. Both blocks have been obtained, so nothing is left of the budget. -/
theorem ledger_balances_dealings_single :
    let i : Fin Layering.single.size := (0 : Fin 1)
    let calls : List (Call .single) := [.allocate i ⟨24, 8⟩, .allocate i ⟨24, 8⟩,
      .allocate i ⟨24, 8⟩]
    let start : Store .single Script := .opened (fun _ => some 2) ⟨[some 4096, some 4096]⟩
    let dealings : List Dealing := [.budgeted (some 2),
      .asked ⟨24, 8⟩ (some (.ok 4096)) (.ok 4096),
      .asked ⟨24, 8⟩ (some (.ok 4096)) (.error (.fault (.liveBlockReturned 4096))),
      .asked ⟨24, 8⟩ none (.error .refused)]
    Layering.single.below i = none ∧ dealings.countP Dealing.obtains = 2 ∧
      dealings.countP Dealing.isCollision = 1 ∧
      ((Store.calls calls start).2.ledger i).Balances dealings := by
  intro i calls start dealings
  have came : .budgeted (some 2) :: Store.dealings i calls start = dealings := by decide +kernel
  have balances := (ledger_balances_dealings (fun _ => some 2)
    (⟨[some 4096, some 4096]⟩ : Script) calls i).1
  exact ⟨rfl, rfl, rfl, came ▸ balances⟩

end ChainLedger
