import ChainLedger.Proofs.Bookkeeping

/-
Passage of a call through a stack of ledgers. A request looks at the budgets on its way in and is
entered in the books on its way out, and a return is struck from the books on its way in, so each
way of ending leaves another part of the stack as it was. Main statements: what a request and what
a return come to, in whatever state the ledgers are (`allocate_iff`, `deallocate_iff`).
-/

set_option autoImplicit false

namespace ChainLedger

namespace Ledger

/-- A ledger has taken a block in: it is counted, taken off a budget that allowed it and, unless it
has no bytes, on record with its layout, whatever was on record before. -/
structure TakesIn (addr : Nat) (layout : Layout) (before after : Ledger) : Prop where
  live : ∀ other, after.live[other]? =
    if addr = other ∧ layout.size ≠ 0 then some layout else before.live[other]?
  budget : Remains 1 before.budget after.budget
  allocations : after.allocations = before.allocations + 1
  releases : after.releases = before.releases

/-- A ledger has given a block up: it is no longer on record, and so many releases are counted. A
block without bytes is not looked up. -/
structure GivesUp (addr : Nat) (layout : Layout) (counted : Nat) (before after : Ledger) :
    Prop where
  live : ∀ other, after.live[other]? =
    if addr = other ∧ layout.size ≠ 0 then none else before.live[other]?
  budget : after.budget = before.budget
  allocations : after.allocations = before.allocations
  releases : after.releases = before.releases + counted

/-- The fault that a ledger finds in the return of a block with bytes: the block is not on record,
or with another layout. -/
inductive Rejects (addr : Nat) (layout : Layout) (ledger : Ledger) : Fault → Prop where
  | absent (free : ledger.live[addr]? = none) : Rejects addr layout ledger (.notLive addr)
  | mismatched {recorded : Layout} (held : ledger.live[addr]? = some recorded)
      (differs : recorded ≠ layout) :
      Rejects addr layout ledger (.layoutMismatch addr layout.size recorded.size)

variable {addr : Nat} {layout : Layout} {counted : Nat} {before after ledger first second : Ledger}

theorem ext_live (live : ∀ addr : Nat, first.live[addr]? = second.live[addr]?)
    (budget : first.budget = second.budget) (allocations : first.allocations = second.allocations)
    (releases : first.releases = second.releases) : first = second := by
  obtain ⟨firstLive, _, _, _⟩ := first
  obtain ⟨secondLive, _, _, _⟩ := second
  obtain rfl : firstLive = secondLive := Std.ExtTreeMap.ext_getElem? fun {addr} => live addr
  simp only at budget allocations releases
  rw [budget, allocations, releases]

theorem takesIn_enter (addr : Nat) (layout : Layout) (unspent : ¬ ledger.IsSpent) :
    ledger.TakesIn addr layout (ledger.enter addr layout).2 where
  live := ledger.live_enter addr layout
  budget := by
    rw [budget_enter]
    exact remains_one unspent
  allocations := ledger.allocations_enter addr layout
  releases := ledger.releases_enter addr layout

/-- There is one way to take a block in. -/
theorem TakesIn.eq_enter (taken : before.TakesIn addr layout after) :
    after = (before.enter addr layout).2 := by
  refine ext_live (fun other => ?_) ?_ ?_ ?_
  · rw [taken.live, live_enter]
  · rw [taken.budget.eq_map_pred, budget_enter]
  · rw [taken.allocations, allocations_enter]
  · rw [taken.releases, releases_enter]

theorem givesUp_strike (addr : Nat) (layout : Layout) (ledger : Ledger) :
    ledger.GivesUp addr layout (if (ledger.strike addr layout).1 = none then 1 else 0)
      (ledger.strike addr layout).2 where
  live := ledger.live_strike addr layout
  budget := ledger.budget_strike addr layout
  allocations := ledger.allocations_strike addr layout
  releases := ledger.releases_strike addr layout

theorem GivesUp.unique (one : before.GivesUp addr layout counted first)
    (two : before.GivesUp addr layout counted second) : first = second :=
  ext_live (fun other => (one.live other).trans (two.live other).symm)
    (one.budget.trans two.budget.symm) (one.allocations.trans two.allocations.symm)
    (one.releases.trans two.releases.symm)

/-- A strike finds the fault with which the block is rejected. -/
theorem strike_eq_some_iff (positive : layout.size ≠ 0) {fault : Fault} :
    (ledger.strike addr layout).1 = some fault ↔ ledger.Rejects addr layout fault := by
  simp only [strike, positive, ↓reduceIte]
  constructor
  · intro found
    split at found
    · next free =>
      cases found
      exact .absent free
    · next recorded held =>
      split at found
      · cases found
      · next differs =>
        cases found
        exact .mismatched held differs
  · rintro (⟨free⟩ | ⟨held, differs⟩)
    · rw [free]
    · rw [held]
      exact congrArg Prod.fst (if_neg differs)

end Ledger

namespace Store

variable {T : Layering} {π : Type}

/-- Some levels of a store have taken a block in, and nothing else has changed but the parent. -/
structure TakesIn (addr : Nat) (layout : Layout) (levels : List (Fin T.size))
    (before after : Store T π) : Prop where
  taken : ∀ k ∈ levels, (before.ledger k).TakesIn addr layout (after.ledger k)
  others : ∀ k, k ∉ levels → after.ledger k = before.ledger k
  trace : after.trace = before.trace

/-- Some levels of a store have given a block up and counted the release, others have given it up
without, and nothing else has changed but the parent. -/
structure GivesUp (addr : Nat) (layout : Layout) (accepting rejecting : List (Fin T.size))
    (before after : Store T π) : Prop where
  counted : ∀ k ∈ accepting, (before.ledger k).GivesUp addr layout 1 (after.ledger k)
  uncounted : ∀ k ∈ rejecting, (before.ledger k).GivesUp addr layout 0 (after.ledger k)
  others : ∀ k, k ∉ accepting ++ rejecting → after.ledger k = before.ledger k
  trace : after.trace = before.trace

section Changes

variable {addr : Nat} {layout : Layout} {levels accepting rejecting : List (Fin T.size)}
  {before after first second : Store T π}

theorem TakesIn.unique (one : before.TakesIn addr layout levels first)
    (two : before.TakesIn addr layout levels second) (parent : first.parent = second.parent) :
    first = second := by
  refine ext_ledger (fun k => ?_) parent (one.trace.trans two.trace.symm)
  by_cases on : k ∈ levels
  · rw [(one.taken k on).eq_enter, (two.taken k on).eq_enter]
  · rw [one.others k on, two.others k on]

theorem GivesUp.unique (one : before.GivesUp addr layout accepting rejecting first)
    (two : before.GivesUp addr layout accepting rejecting second)
    (parent : first.parent = second.parent) : first = second := by
  refine ext_ledger (fun k => ?_) parent (one.trace.trans two.trace.symm)
  by_cases on : k ∈ accepting ++ rejecting
  · rcases List.mem_append.1 on with accepts | rejects
    · exact (one.counted k accepts).unique (two.counted k accepts)
    · exact (one.uncounted k rejects).unique (two.uncounted k rejects)
  · rw [one.others k on, two.others k on]

theorem TakesIn.of_enter (unspent : ∀ k ∈ levels, ¬ (before.ledger k).IsSpent)
    (ledgers : ∀ k, after.ledger k =
      if k ∈ levels then ((before.ledger k).enter addr layout).2 else before.ledger k)
    (trace : after.trace = before.trace) : before.TakesIn addr layout levels after where
  taken k on := by
    rw [ledgers, if_pos on]
    exact Ledger.takesIn_enter addr layout (unspent k on)
  others k off := by rw [ledgers, if_neg off]
  trace := trace

theorem GivesUp.of_strike
    (accepted : ∀ k ∈ accepting, ((before.ledger k).strike addr layout).1 = none)
    (rejected : ∀ k ∈ rejecting, ((before.ledger k).strike addr layout).1 ≠ none)
    (ledgers : ∀ k, after.ledger k = if k ∈ accepting ++ rejecting then
      ((before.ledger k).strike addr layout).2 else before.ledger k)
    (trace : after.trace = before.trace) :
    before.GivesUp addr layout accepting rejecting after where
  counted k on := by
    have given := (before.ledger k).givesUp_strike addr layout
    rw [if_pos (accepted k on)] at given
    rwa [ledgers, if_pos (List.mem_append_left _ on)]
  uncounted k on := by
    have given := (before.ledger k).givesUp_strike addr layout
    rw [if_neg (rejected k on)] at given
    rwa [ledgers, if_pos (List.mem_append_right _ on)]
  others k off := by rw [ledgers, if_neg off]
  trace := trace

/-- The levels inside one that gives the block up do not notice that it has. -/
theorem GivesUp.cons {i : Fin T.size} (off : i ∉ accepting ++ rejecting)
    (accepted : ((before.ledger i).strike addr layout).1 = none)
    (rest : (before.withLedger i ((before.ledger i).strike addr layout).2).GivesUp addr layout
      accepting rejecting after) : before.GivesUp addr layout (i :: accepting) rejecting after where
  counted k on := by
    have given := (before.ledger i).givesUp_strike addr layout
    rw [if_pos accepted] at given
    by_cases same : i = k
    · subst same
      rwa [rest.others i off, ledger_withLedger, if_pos rfl]
    · have counted := rest.counted k (List.mem_of_ne_of_mem (Ne.symm same) on)
      rwa [ledger_withLedger, if_neg same] at counted
  uncounted k on := by
    have differs : i ≠ k := fun same => off (same ▸ List.mem_append_right _ on)
    have uncounted := rest.uncounted k on
    rwa [ledger_withLedger, if_neg differs] at uncounted
  others k away := by
    obtain ⟨differs, away⟩ := not_or.1 (mt List.mem_cons.2 away)
    rw [rest.others k away, ledger_withLedger, if_neg (Ne.symm differs)]
  trace := rest.trace

end Changes

variable [Parent π]

/-- What a request comes to at a stack of ledgers, of which the outermost is listed first. -/
inductive Requested (layout : Layout) (path : List (Fin T.size)) (before : Store T π) :
    Except Failure Nat → Store T π → Prop where
  /-- The outermost ledger whose budget is spent turns it away and writes this down. -/
  | turnedAway {outer inner : List (Fin T.size)} {j : Fin T.size}
      (shape : path = outer ++ j :: inner)
      (unspent : ∀ k ∈ outer, ¬ (before.ledger k).IsSpent) (spent : (before.ledger j).IsSpent) :
      Requested layout path before (.error .refused) (before.emit (.requestRefused layout))
  /-- The parent is asked and has no room. -/
  | full {parent : π} (unspent : ∀ k ∈ path, ¬ (before.ledger k).IsSpent)
      (full : Parent.allocate layout before.parent = (none, parent)) :
      Requested layout path before (.error .refused) { before with parent }
  /-- On the way out a ledger finds that the block is live already. -/
  | collided {addr : Nat} {after : Store T π} {outer inner : List (Fin T.size)} {j : Fin T.size}
      (shape : path = outer ++ j :: inner)
      (unspent : ∀ k ∈ path, ¬ (before.ledger k).IsSpent)
      (granted : Parent.allocate layout before.parent = (some addr, after.parent))
      (positive : layout.size ≠ 0) (live : (before.ledger j).isLive addr = true)
      (fresh : ∀ k ∈ inner, (before.ledger k).isLive addr = false)
      (taken : before.TakesIn addr layout (j :: inner) after) :
      Requested layout path before (.error (.fault (.liveBlockReturned addr))) after
  | granted {addr : Nat} {after : Store T π}
      (unspent : ∀ k ∈ path, ¬ (before.ledger k).IsSpent)
      (granted : Parent.allocate layout before.parent = (some addr, after.parent))
      (fresh : layout.size ≠ 0 → ∀ k ∈ path, (before.ledger k).isLive addr = false)
      (taken : before.TakesIn addr layout path after) :
      Requested layout path before (.ok addr) after

/-- What a return comes to at a stack of ledgers, of which the outermost is listed first. -/
inductive Returned (addr : Nat) (layout : Layout) (path : List (Fin T.size))
    (before : Store T π) : Option Fault → Store T π → Prop where
  /-- Every ledger accepts the block, and the parent takes it back. -/
  | accepted {after : Store T π}
      (held : layout.size ≠ 0 → ∀ k ∈ path, (before.ledger k).live[addr]? = some layout)
      (gone : before.GivesUp addr layout path [] after)
      (parent : after.parent = Parent.deallocate addr layout before.parent) :
      Returned addr layout path before none after
  /-- The outermost ledger that does not hold the block with this layout rejects it. -/
  | rejected {fault : Fault} {after : Store T π} {outer inner : List (Fin T.size)}
      {j : Fin T.size} (shape : path = outer ++ j :: inner) (positive : layout.size ≠ 0)
      (held : ∀ k ∈ outer, (before.ledger k).live[addr]? = some layout)
      (rejects : (before.ledger j).Rejects addr layout fault)
      (gone : before.GivesUp addr layout outer [j] after) (parent : after.parent = before.parent) :
      Returned addr layout path before (some fault) after

variable {layout : Layout} {path outer inner : List (Fin T.size)} {j : Fin T.size}
  {before after store : Store T π} {parent : π} {addr : Nat}

/-- A request that no budget turns away is up to the parent. -/
theorem allocateAlong_of_full (unspent : ∀ k ∈ path, ¬ (store.ledger k).IsSpent)
    (full : Parent.allocate layout store.parent = (none, parent)) :
    allocateAlong layout path store = (.error .refused, { store with parent }) := by
  induction path with
  | nil => rw [allocateAlong, full]
  | cons i inner ih =>
    obtain ⟨here, further⟩ := List.forall_mem_cons.1 unspent
    rw [allocateAlong, if_neg here, ih further]

/-- A block that the parent grants is handed out if every level accepts it. -/
theorem allocateAlong_of_granted (apart : path.Nodup)
    (unspent : ∀ k ∈ path, ¬ (store.ledger k).IsSpent)
    (granted : Parent.allocate layout store.parent = (some addr, parent))
    (accepted : ∀ k ∈ path, ((store.ledger k).enter addr layout).1 = none) :
    ∃ after, allocateAlong layout path store = (.ok addr, after) := by
  induction path with
  | nil => exact ⟨_, by rw [allocateAlong, granted]⟩
  | cons i inner ih =>
    obtain ⟨off, apart⟩ := List.nodup_cons.1 apart
    obtain ⟨here, further⟩ := List.forall_mem_cons.1 unspent
    obtain ⟨accepts, beneath⟩ := List.forall_mem_cons.1 accepted
    obtain ⟨between, asked⟩ := ih apart further beneath
    have untouched := ledger_allocateAlong_of_not_mem layout inner store i off
    rw [asked] at untouched
    rw [allocateAlong, if_neg here, asked]
    simp only [untouched]
    rcases entered : (store.ledger i).enter addr layout with ⟨fault, left⟩
    rw [entered] at accepts
    subst accepts
    exact ⟨_, rfl⟩

/-- A block that the parent grants and a level finds to be at fault gets no further than there. -/
theorem allocateAlong_of_collided {fault : Fault} (apart : (outer ++ j :: inner).Nodup)
    (unspent : ∀ k ∈ outer ++ j :: inner, ¬ (store.ledger k).IsSpent)
    (granted : Parent.allocate layout store.parent = (some addr, parent))
    (accepted : ∀ k ∈ inner, ((store.ledger k).enter addr layout).1 = none)
    (found : ((store.ledger j).enter addr layout).1 = some fault) :
    ∃ after, allocateAlong layout (outer ++ j :: inner) store = (.error (.fault fault), after) ∧
      after.parent = parent ∧ store.TakesIn addr layout (j :: inner) after := by
  induction outer with
  | nil =>
    obtain ⟨off, apart⟩ := List.nodup_cons.1 apart
    obtain ⟨here, further⟩ := List.forall_mem_cons.1 unspent
    obtain ⟨between, asked⟩ := allocateAlong_of_granted apart further granted accepted
    obtain ⟨answered, trace, -, ledgers⟩ := allocateAlong_ok apart asked
    have untouched : between.ledger j = store.ledger j := (ledgers j).trans (if_neg off)
    rcases entered : (store.ledger j).enter addr layout with ⟨_ | again, left⟩
    · rw [entered] at found
      cases found
    rw [entered] at found
    obtain rfl : again = fault := Option.some.inj found
    refine ⟨between.withLedger j left, ?_, ?_, .of_enter unspent (fun k => ?_) trace⟩
    · simp only [List.nil_append, allocateAlong, here, ↓reduceIte, asked, untouched, entered]
    · rw [granted] at answered
      exact (congrArg Prod.snd answered).symm
    · rw [ledger_withLedger, ledgers]
      by_cases same : j = k
      · subst same
        simp only [↓reduceIte, List.mem_cons_self, entered]
      · simp only [same, Ne.symm same, ↓reduceIte, List.mem_cons, false_or]
  | cons i outer ih =>
    obtain ⟨-, apart⟩ := List.nodup_cons.1 apart
    obtain ⟨here, further⟩ := List.forall_mem_cons.1 unspent
    obtain ⟨after, asked, rest⟩ := ih apart further
    exact ⟨after, by rw [List.cons_append, allocateAlong, if_neg here, asked], rest⟩

theorem exists_outermost {holds : Fin T.size → Prop} [DecidablePred holds]
    (somewhere : ∃ k ∈ path, holds k) :
    ∃ outer j inner, path = outer ++ j :: inner ∧ (∀ k ∈ outer, ¬ holds k) ∧ holds j := by
  have found : (path.find? holds).isSome := by
    rw [List.find?_isSome]
    simpa only [decide_eq_true_eq] using somewhere
  obtain ⟨j, here⟩ := Option.isSome_iff_exists.1 found
  obtain ⟨holds_here, outer, inner, shape, others⟩ := List.find?_eq_some_iff_append.1 here
  exact ⟨outer, j, inner, shape, fun k on => by simpa using others k on,
    of_decide_eq_true holds_here⟩

theorem requested_of_allocateAlong {answer : Except Failure Nat} (apart : path.Nodup)
    (asked : allocateAlong layout path before = (answer, after)) :
    before.Requested layout path answer after := by
  by_cases spent : ∃ k ∈ path, (before.ledger k).IsSpent
  · obtain ⟨outer, j, inner, shape, unspent, spent_here⟩ := exists_outermost spent
    obtain ⟨rfl, rfl⟩ := Prod.mk.inj ((allocateAlong_of_spent spent).symm.trans asked)
    exact .turnedAway shape unspent spent_here
  have unspent : ∀ k ∈ path, ¬ (before.ledger k).IsSpent := fun k on here => spent ⟨k, on, here⟩
  rcases answer with (_ | fault | wanted) | addr
  · obtain ⟨ledgers, reason⟩ := allocateAlong_refused asked
    rcases reason with ⟨-, -, blamed⟩ | ⟨full, trace⟩
    · exact absurd blamed spent
    · have same : after = { before with parent := after.parent } := ext_ledger ledgers rfl trace
      rw [same]
      exact .full unspent full
  · obtain ⟨addr, outer, j, inner, shape, granted, trace, here, accepted, ledgers⟩ :=
      allocateAlong_fault apart asked
    obtain ⟨rfl, positive, live⟩ := Ledger.eq_of_enter_fault here
    have within : ∀ k ∈ j :: inner, ¬ (before.ledger k).IsSpent := fun k on =>
      unspent k (shape ▸ List.mem_append_right _ on)
    exact .collided shape unspent granted positive live
      (fun k on => (Ledger.enter_accepted_iff.1 (accepted k on)).resolve_left positive)
      (.of_enter within ledgers trace)
  · exact absurd (congrArg Prod.fst asked) (allocateAlong_ne_aborted _ _ _ _)
  · obtain ⟨granted, trace, accepted, ledgers⟩ := allocateAlong_ok apart asked
    exact .granted unspent granted
      (fun positive k on => (Ledger.enter_accepted_iff.1 (accepted k on)).resolve_left positive)
      (.of_enter unspent ledgers trace)

theorem takesIn_of_ok (apart : path.Nodup)
    (asked : allocateAlong layout path before = (.ok addr, after)) :
    before.TakesIn addr layout path after := by
  cases requested_of_allocateAlong apart asked with
  | granted _ _ _ taken => exact taken

theorem Requested.allocateAlong_eq {answer : Except Failure Nat} (apart : path.Nodup)
    (requested : before.Requested layout path answer after) :
    allocateAlong layout path before = (answer, after) := by
  cases requested with
  | @turnedAway outer inner j shape _ spent =>
    have on : j ∈ path := shape ▸ List.mem_append_right _ List.mem_cons_self
    exact allocateAlong_of_spent ⟨j, on, spent⟩
  | full unspent full => exact allocateAlong_of_full unspent full
  | @collided addr _ outer inner j shape unspent granted positive live fresh taken =>
    subst shape
    have accepted : ∀ k ∈ inner, ((before.ledger k).enter addr layout).1 = none := fun k on =>
      Ledger.enter_accepted_iff.2 (Or.inr (fresh k on))
    have found : ((before.ledger j).enter addr layout).1 = some (.liveBlockReturned addr) := by
      simp only [Ledger.enter, positive, live, ↓reduceIte]
    obtain ⟨left, asked, parent, taken'⟩ :=
      allocateAlong_of_collided apart unspent granted accepted found
    rw [asked, taken'.unique taken parent]
  | granted unspent granted fresh taken =>
    have accepted : ∀ k ∈ path, ((before.ledger k).enter _ layout).1 = none := fun k on =>
      Ledger.enter_accepted_iff.2 ((Decidable.em (layout.size = 0)).imp_right fun positive =>
        fresh positive k on)
    obtain ⟨left, asked⟩ := allocateAlong_of_granted apart unspent granted accepted
    obtain ⟨granted', trace, -, ledgers⟩ := allocateAlong_ok apart asked
    have same : left = after := by
      refine TakesIn.unique (.of_enter unspent ledgers trace) taken ?_
      rw [granted] at granted'
      exact (congrArg Prod.snd granted').symm
    rw [asked, same]

/-- What a request comes to at a stack of ledgers in any state. If a budget is spent, it is turned
away by the outermost ledger that has spent it, which answers the same when it is asked itself. -/
theorem allocate_iff (i : Fin T.size) (layout : Layout) (before : Store T π) :
    (∀ answer after, before.allocate (some i) layout = (answer, after) ↔
      before.Requested layout (T.path i) answer after) ∧
    ∀ outer j inner, T.path i = outer ++ j :: inner →
      (∀ k ∈ outer, ¬ (before.ledger k).IsSpent) → (before.ledger j).IsSpent →
      before.allocate (some i) layout = before.allocate (some j) layout := by
  refine ⟨fun answer after => ⟨requested_of_allocateAlong (T.path_nodup i),
    Requested.allocateAlong_eq (T.path_nodup i)⟩, fun outer j inner shape unspent spent => ?_⟩
  have on : j ∈ T.path i := shape ▸ List.mem_append_right _ List.mem_cons_self
  have asked : before.allocate (some i) layout = _ := allocateAlong_of_spent ⟨j, on, spent⟩
  have itself : before.allocate (some j) layout = _ :=
    allocateAlong_of_spent ⟨j, Layering.mem_path_self j, spent⟩
  rw [asked, itself]

/-- A ledger with budget left stands on one that has spent its own. -/
theorem allocate_iff_fork :
    let i : Fin Layering.fork.size := (1 : Fin 3)
    let j : Fin Layering.fork.size := (0 : Fin 3)
    let before : Store .fork Arena :=
      .opened (fun k => if k = j then some 0 else some 1) (.ofCapacity 4096)
    Layering.fork.path i = [i] ++ j :: [] ∧ (∀ k ∈ [i], ¬ (before.ledger k).IsSpent) ∧
      (before.ledger j).IsSpent ∧
      before.allocate (some i) ⟨24, 8⟩ =
        (.error .refused, before.emit (.requestRefused ⟨24, 8⟩)) ∧
      before.allocate (some i) ⟨24, 8⟩ = before.allocate (some j) ⟨24, 8⟩ := by
  intro i j before
  have shape : Layering.fork.path i = [i] ++ j :: [] := by decide +kernel
  have unspent : ∀ k ∈ [i], ¬ (before.ledger k).IsSpent := by decide +kernel
  have spent : (before.ledger j).IsSpent := by decide +kernel
  obtain ⟨outcomes, itself⟩ := allocate_iff i ⟨24, 8⟩ before
  exact ⟨shape, unspent, spent, (outcomes _ _).2 (.turnedAway shape unspent spent),
    itself [i] j [] shape unspent spent⟩

/-- A block that a level rejects gets no further in than there. -/
theorem deallocateAlong_of_rejected {fault : Fault} (apart : (outer ++ j :: inner).Nodup)
    (accepted : ∀ k ∈ outer, ((store.ledger k).strike addr layout).1 = none)
    (found : ((store.ledger j).strike addr layout).1 = some fault) :
    ∃ after, deallocateAlong addr layout (outer ++ j :: inner) store = (some fault, after) ∧
      after.parent = store.parent ∧ store.GivesUp addr layout outer [j] after := by
  induction outer generalizing store with
  | nil =>
    rcases struck : (store.ledger j).strike addr layout with ⟨_ | again, left⟩
    · rw [struck] at found
      cases found
    rw [struck] at found
    obtain rfl : again = fault := Option.some.inj found
    refine ⟨store.withLedger j left, ?_, rfl, .of_strike accepted ?_ (fun k => ?_) rfl⟩
    · rw [List.nil_append, deallocateAlong, struck]
    · simp only [List.mem_singleton, forall_eq, struck, ne_eq, reduceCtorEq, not_false_eq_true]
    · rw [ledger_withLedger, List.nil_append]
      by_cases same : j = k
      · subst same
        simp only [↓reduceIte, List.mem_singleton, struck]
      · simp only [same, Ne.symm same, ↓reduceIte, List.mem_singleton]
  | cons i outer ih =>
    obtain ⟨off, apart⟩ := List.nodup_cons.1 apart
    obtain ⟨here, further⟩ := List.forall_mem_cons.1 accepted
    have elsewhere : ∀ k ∈ outer ++ j :: inner,
        (store.withLedger i ((store.ledger i).strike addr layout).2).ledger k = store.ledger k := by
      intro k on
      have differs : i ≠ k := fun same => off (same ▸ on)
      rw [ledger_withLedger, if_neg differs]
    obtain ⟨after, ended, parent, given⟩ := ih apart
      (fun k on => by
        rw [elsewhere k (List.mem_append_left _ on)]
        exact further k on)
      (by rwa [elsewhere j (List.mem_append_right _ List.mem_cons_self)])
    have within : i ∉ outer ++ [j] := fun on => off <|
      (List.mem_append.1 on).elim (List.mem_append_left _) fun at_fault =>
        List.mem_append_right _ (List.mem_singleton.1 at_fault ▸ List.mem_cons_self)
    have struck : (store.ledger i).strike addr layout =
        (none, ((store.ledger i).strike addr layout).2) := Prod.ext here rfl
    refine ⟨after, ?_, parent, given.cons within here⟩
    rw [List.cons_append, deallocateAlong, struck]
    exact ended

theorem returned_of_deallocateAlong {answer : Option Fault} (apart : path.Nodup)
    (ended : deallocateAlong addr layout path before = (answer, after)) :
    before.Returned addr layout path answer after := by
  have trace : after.trace = before.trace :=
    congrArg Store.trace (congrArg Prod.snd ended).symm |>.trans (trace_deallocateAlong _ _ _ _)
  cases answer with
  | none =>
    have accepted := strike_of_accepted apart (congrArg Prod.fst ended)
    obtain ⟨-, parent, ledgers⟩ := deallocateAlong_accepted apart accepted
    rw [ended] at parent ledgers
    refine .accepted
      (fun positive k on => (Ledger.strike_accepted_iff.1 (accepted k on)).resolve_left positive)
      (.of_strike accepted (List.forall_mem_nil _) (fun k => ?_) trace) parent
    rw [List.append_nil]
    exact ledgers k
  | some fault =>
    obtain ⟨outer, j, inner, shape, parent, accepted, here, ledgers⟩ :=
      deallocateAlong_fault apart ended
    have positive : layout.size ≠ 0 := by
      intro empty
      rw [Ledger.strike_empty empty] at here
      cases here
    refine .rejected shape positive
      (fun k on => (Ledger.strike_accepted_iff.1 (accepted k on)).resolve_left positive)
      ((Ledger.strike_eq_some_iff positive).1 here) (.of_strike accepted ?_ ledgers trace) parent
    simp only [List.mem_singleton, forall_eq, here, ne_eq, reduceCtorEq, not_false_eq_true]

theorem Returned.deallocateAlong_eq {answer : Option Fault} (apart : path.Nodup)
    (returned : before.Returned addr layout path answer after) :
    deallocateAlong addr layout path before = (answer, after) := by
  cases returned with
  | accepted held gone parent =>
    have accepted : ∀ k ∈ path, ((before.ledger k).strike addr layout).1 = none := fun k on =>
      Ledger.strike_accepted_iff.2 ((Decidable.em (layout.size = 0)).imp_right fun positive =>
        held positive k on)
    obtain ⟨quiet, parent', ledgers⟩ := deallocateAlong_accepted apart accepted
    refine Prod.ext quiet (GivesUp.unique (.of_strike accepted (List.forall_mem_nil _)
      (fun k => ?_) (trace_deallocateAlong _ _ _ _)) gone (parent'.trans parent.symm))
    rw [List.append_nil]
    exact ledgers k
  | rejected shape positive held rejects gone parent =>
    subst shape
    obtain ⟨left, ended, parent', given⟩ := deallocateAlong_of_rejected apart
      (fun k on => Ledger.strike_accepted_iff.2 (Or.inr (held k on)))
      ((Ledger.strike_eq_some_iff positive).2 rejects)
    rw [ended, given.unique gone (parent'.trans parent.symm)]

/-- What a return comes to at a stack of ledgers in any state. -/
theorem deallocate_iff (i : Fin T.size) (addr : Nat) (layout : Layout) (before : Store T π)
    (answer : Option Fault) (after : Store T π) :
    before.deallocate (some i) addr layout = (answer, after) ↔
      before.Returned addr layout (T.path i) answer after :=
  ⟨returned_of_deallocateAlong (T.path_nodup i), Returned.deallocateAlong_eq (T.path_nodup i)⟩

end Store

end ChainLedger
