import ChainLedger.Node
import Mathlib.Order.Fin.Basic

set_option autoImplicit false

namespace ChainLedger

namespace Layering

variable {T : Layering}

theorem path_eq_cons (i : Fin T.size) : ∃ inner, T.path i = i :: inner := by
  cases stands : T.below i with
  | none => exact ⟨[], path_of_below_none stands⟩
  | some j => exact ⟨T.path j, path_of_below_some stands⟩

theorem path_eq (i : Fin T.size) : T.path i = i :: Handle.path (T.below i) := by
  cases stands : T.below i with
  | none => exact path_of_below_none stands
  | some j => exact path_of_below_some stands

theorem not_mem_handlePath_below (i : Fin T.size) : i ∉ Handle.path (T.below i) :=
  (List.nodup_cons.1 (path_eq i ▸ T.path_nodup i)).1

theorem mem_path_self (i : Fin T.size) : i ∈ T.path i := by
  obtain ⟨inner, shape⟩ := path_eq_cons i
  rw [shape]
  exact List.mem_cons_self

/-- A path goes on from each of its ledgers as the path of that ledger. -/
theorem path_of_append {i j : Fin T.size} {outer inner : List (Fin T.size)}
    (shape : T.path i = outer ++ j :: inner) : T.path j = j :: inner := by
  induction outer generalizing i with
  | nil =>
    obtain ⟨rest, head⟩ := path_eq_cons i
    rw [head, List.nil_append, List.cons.injEq] at shape
    obtain ⟨rfl, rfl⟩ := shape
    exact head
  | cons k outer ih =>
    cases stands : T.below i with
    | none =>
      rw [path_of_below_none stands, List.cons_append, List.cons.injEq] at shape
      exact absurd shape.2.symm (by simp only [List.append_eq_nil_iff, reduceCtorEq, and_false,
        not_false_eq_true])
    | some below =>
      rw [path_of_below_some stands, List.cons_append, List.cons.injEq] at shape
      exact ih shape.2

theorem mem_path_below {i j k : Fin T.size} (on : j ∈ T.path i) (stands : T.below j = some k) :
    k ∈ T.path i := by
  obtain ⟨outer, inner, shape⟩ := List.append_of_mem on
  have rest := path_of_append shape
  rw [path_of_below_some stands, List.cons.injEq] at rest
  rw [shape, ← rest.2]
  exact List.mem_append_right _ (List.mem_cons_of_mem _ (mem_path_self k))

/-- Whatever holds at the bottom, and for a ledger if it holds below, holds for all ledgers. -/
@[elab_as_elim]
theorem induction_inward {motive : Fin T.size → Prop}
    (bottom : ∀ i, T.below i = none → motive i)
    (above : ∀ i j, T.below i = some j → motive j → motive i) (i : Fin T.size) : motive i :=
  match stands : T.below i with
  | none => bottom i stands
  | some j =>
      have _smaller := T.below_lt i j stands
      above i j stands (induction_inward bottom above j)
termination_by i.val

/-- Nothing on the path of a ledger stands on that ledger. -/
theorem below_ne_of_mem_path {j l : Fin T.size} (on : j ∈ T.path l) : T.below j ≠ some l := by
  intro stands
  have lower := T.below_lt j l stands
  exact absurd lower (Nat.not_lt.2 ((T.path_pairwise l).2 j on))

theorem eq_of_below_eq {i j k l : Fin T.size} (first : j ∈ T.path i) (second : k ∈ T.path i)
    (onFirst : T.below j = some l) (onSecond : T.below k = some l) : j = k := by
  induction i using induction_inward with
  | bottom i stands =>
    rw [path_of_below_none stands, List.mem_singleton] at first second
    rw [first, second]
  | above i m stands ih =>
    rw [path_of_below_some stands, List.mem_cons] at first second
    rcases first with rfl | first <;> rcases second with rfl | second
    · rfl
    · rw [stands, Option.some.injEq] at onFirst
      exact absurd (onFirst ▸ onSecond) (below_ne_of_mem_path second)
    · rw [stands, Option.some.injEq] at onSecond
      exact absurd (onSecond ▸ onFirst) (below_ne_of_mem_path first)
    · exact ih first second

end Layering

theorem Handle.path_nodup {T : Layering} (handle : Handle T) : handle.path.Nodup := by
  cases handle with
  | none => exact List.nodup_nil
  | some i => exact T.path_nodup i

namespace Store

variable {T : Layering} {π : Type}

theorem live_setBudget (store : Store T π) (i : Fin T.size) (budget : Option Nat)
    (j : Fin T.size) : ((store.setBudget i budget).ledger j).live = (store.ledger j).live := by
  simp only [setBudget, ledger_withLedger]
  split
  · next same => rw [same]
  · rfl

variable [Parent π] {layout : Layout} {path : List (Fin T.size)} {store after : Store T π}
  {addr : Nat}

theorem allocate_none (layout : Layout) (store : Store T π) :
    store.allocate none layout =
      match Parent.allocate layout store.parent with
      | (none, parent) => (.error .refused, { store with parent })
      | (some addr, parent) => (.ok addr, { store with parent }) := rfl

/-- What the parent answers is the answer where no ledger is asked. -/
theorem answer_allocate_none (layout : Layout) (store : Store T π) :
    (store.allocate none layout).1 =
      (Parent.allocate layout store.parent).1.elim (.error .refused) .ok := by
  rw [allocate_none]
  rcases Parent.allocate layout store.parent with ⟨_ | addr, parent⟩ <;> rfl

/-- A request at a ledger whose budget is not spent goes to the level below, and what is granted
there is entered. -/
theorem allocate_some (layout : Layout) (store : Store T π) (i : Fin T.size) :
    store.allocate (some i) layout =
      if (store.ledger i).IsSpent then (.error .refused, store.emit (.requestRefused layout))
      else
        match store.allocate (T.below i) layout with
        | (.error failure, store) => (.error failure, store)
        | (.ok addr, store) =>
            match (store.ledger i).enter addr layout with
            | (none, entered) => (.ok addr, store.withLedger i entered)
            | (some fault, entered) => (.error (.fault fault), store.withLedger i entered) := by
  rw [allocate, Handle.path, Layering.path_eq]
  rfl

/-- A return at a ledger that accepts it goes on to the level below. -/
theorem deallocate_some (addr : Nat) (layout : Layout) (store : Store T π) (i : Fin T.size) :
    store.deallocate (some i) addr layout =
      match (store.ledger i).strike addr layout with
      | (none, struck) => (store.withLedger i struck).deallocate (T.below i) addr layout
      | (some fault, struck) => (some fault, store.withLedger i struck) := by
  rw [deallocate, Handle.path, Layering.path_eq]
  rfl

/-- A request made below a ledger does not touch it. -/
theorem ledger_allocate_below (layout : Layout) (store : Store T π) (i : Fin T.size) :
    (store.allocate (T.below i) layout).2.ledger i = store.ledger i :=
  ledger_allocateAlong_of_not_mem _ _ _ _ (Layering.not_mem_handlePath_below i)

/-- A granted request comes from the parent and enters the block at every level. -/
theorem allocateAlong_ok (apart : path.Nodup)
    (granted : allocateAlong layout path store = (.ok addr, after)) :
    Parent.allocate layout store.parent = (some addr, after.parent) ∧
      after.trace = store.trace ∧
      (∀ i ∈ path, ((store.ledger i).enter addr layout).1 = none) ∧
      ∀ i, after.ledger i =
        if i ∈ path then ((store.ledger i).enter addr layout).2 else store.ledger i := by
  induction path generalizing addr after with
  | nil =>
    simp only [allocateAlong] at granted
    split at granted
    · simp only [Prod.mk.injEq, reduceCtorEq, false_and] at granted
    · next answered =>
      simp only [Prod.mk.injEq, Except.ok.injEq] at granted
      obtain ⟨rfl, rfl⟩ := granted
      refine ⟨answered, rfl, fun i on => absurd on List.not_mem_nil, fun i => ?_⟩
      simp only [List.not_mem_nil, ↓reduceIte]
      rfl
  | cons j inner ih =>
    obtain ⟨off, apart⟩ := List.nodup_cons.1 apart
    simp only [allocateAlong] at granted
    split at granted
    · simp only [Prod.mk.injEq, reduceCtorEq, false_and] at granted
    · split at granted
      · simp only [Prod.mk.injEq, reduceCtorEq, false_and] at granted
      · next deeper =>
        obtain ⟨answered, trace, accepted, ledgers⟩ := ih apart deeper
        have same : _ = store.ledger j := (ledgers j).trans (if_neg off)
        rw [same] at granted
        split at granted
        · next entered =>
          simp only [Prod.mk.injEq, Except.ok.injEq] at granted
          obtain ⟨rfl, rfl⟩ := granted
          refine ⟨answered, trace, fun i on => ?_, fun i => ?_⟩
          · rcases List.mem_cons.1 on with rfl | on
            · rw [entered]
            · exact accepted i on
          · by_cases here : j = i
            · subst here
              simp only [ledger_withLedger, ↓reduceIte, List.mem_cons_self, entered]
            · simp only [ledger_withLedger, here, ↓reduceIte, List.mem_cons, Ne.symm here,
                false_or, ledgers]
        · simp only [Prod.mk.injEq, reduceCtorEq, false_and] at granted

/-- A request that ends in a fault has got a block from the parent and enters it at the level of
the fault and at every level inside it. -/
theorem allocateAlong_fault {fault : Fault} (apart : path.Nodup)
    (failed : allocateAlong layout path store = (.error (.fault fault), after)) :
    ∃ addr outer j inner, path = outer ++ j :: inner ∧
      Parent.allocate layout store.parent = (some addr, after.parent) ∧
      after.trace = store.trace ∧
      ((store.ledger j).enter addr layout).1 = some fault ∧
      (∀ i ∈ inner, ((store.ledger i).enter addr layout).1 = none) ∧
      ∀ i, after.ledger i =
        if i ∈ j :: inner then ((store.ledger i).enter addr layout).2 else store.ledger i := by
  induction path generalizing after with
  | nil =>
    simp only [allocateAlong] at failed
    split at failed <;> simp only [Prod.mk.injEq, Except.error.injEq, reduceCtorEq,
      false_and] at failed
  | cons k inner ih =>
    obtain ⟨off, apart⟩ := List.nodup_cons.1 apart
    simp only [allocateAlong] at failed
    split at failed
    · simp only [Prod.mk.injEq, Except.error.injEq, reduceCtorEq, false_and] at failed
    · split at failed
      · next deeper =>
        simp only [Prod.mk.injEq, Except.error.injEq] at failed
        obtain ⟨rfl, rfl⟩ := failed
        obtain ⟨addr, outer, j, inner, shape, rest⟩ := ih apart deeper
        exact ⟨addr, k :: outer, j, inner, by rw [shape, List.cons_append], rest⟩
      · next deeper =>
        obtain ⟨answered, trace, accepted, ledgers⟩ := allocateAlong_ok apart deeper
        have same : _ = store.ledger k := (ledgers k).trans (if_neg off)
        rw [same] at failed
        split at failed
        · simp only [Prod.mk.injEq, reduceCtorEq, false_and] at failed
        · next entered =>
          simp only [Prod.mk.injEq, Except.error.injEq, Failure.fault.injEq] at failed
          obtain ⟨rfl, rfl⟩ := failed
          refine ⟨_, [], k, inner, rfl, answered, trace, by rw [entered], accepted, fun i => ?_⟩
          by_cases here : k = i
          · subst here
            simp only [ledger_withLedger, ↓reduceIte, List.mem_cons_self, entered]
          · simp only [ledger_withLedger, here, ↓reduceIte, List.mem_cons, Ne.symm here,
              false_or, ledgers]

/-- A refused request changes no ledger. Either a budget on the path is spent, and the parent is
not asked, or the parent has no room. -/
theorem allocateAlong_refused
    (refused : allocateAlong layout path store = (.error .refused, after)) :
    (∀ i, after.ledger i = store.ledger i) ∧
      ((after.parent = store.parent ∧ after.trace = .requestRefused layout :: store.trace ∧
          ∃ i ∈ path, (store.ledger i).IsSpent) ∨
        (Parent.allocate layout store.parent = (none, after.parent) ∧
          after.trace = store.trace)) := by
  induction path generalizing after with
  | nil =>
    simp only [allocateAlong] at refused
    split at refused
    · next answered =>
      simp only [Prod.mk.injEq, true_and] at refused
      obtain rfl := refused
      exact ⟨fun i => rfl, Or.inr ⟨answered, rfl⟩⟩
    · simp only [Prod.mk.injEq, reduceCtorEq, false_and] at refused
  | cons j inner ih =>
    simp only [allocateAlong] at refused
    split at refused
    · next spent =>
      simp only [Prod.mk.injEq, true_and] at refused
      obtain rfl := refused
      exact ⟨fun i => rfl, Or.inl ⟨rfl, rfl, j, List.mem_cons_self, spent⟩⟩
    · split at refused
      · next deeper =>
        simp only [Prod.mk.injEq, Except.error.injEq] at refused
        obtain ⟨rfl, rfl⟩ := refused
        obtain ⟨ledgers, reason⟩ := ih deeper
        rcases reason with ⟨parent, trace, i, on, spent⟩ | unasked
        · exact ⟨ledgers, Or.inl ⟨parent, trace, i, List.mem_cons_of_mem _ on, spent⟩⟩
        · exact ⟨ledgers, Or.inr unasked⟩
      · split at refused <;> simp only [Prod.mk.injEq, Except.error.injEq, reduceCtorEq,
          false_and] at refused

/-- A spent budget anywhere on the path turns a request away. -/
theorem allocateAlong_of_spent (spent : ∃ i ∈ path, (store.ledger i).IsSpent) :
    allocateAlong layout path store = (.error .refused, store.emit (.requestRefused layout)) := by
  induction path with
  | nil => exact absurd spent (by simp only [List.not_mem_nil, false_and, exists_false,
      not_false_eq_true])
  | cons j inner ih =>
    simp only [List.mem_cons, exists_eq_or_imp] at spent
    unfold allocateAlong
    split
    · rfl
    · next unspent => rw [ih (spent.resolve_left unspent)]

/-- Without a spent budget on the path and without a fault, it is up to the parent whether a request
is granted. -/
theorem allocateAlong_of_unspent (unspent : ∀ i ∈ path, ¬ (store.ledger i).IsSpent)
    (quiet : ∀ fault, (allocateAlong layout path store).1 ≠ .error (.fault fault)) :
    (∃ addr after, allocateAlong layout path store = (.ok addr, after)) ∨
      ∃ after, allocateAlong layout path store = (.error .refused, after) ∧
        Parent.allocate layout store.parent = (none, after.parent) ∧ after.trace = store.trace := by
  rcases asked : allocateAlong layout path store with ⟨failure | addr, after⟩
  · cases failure with
    | refused =>
      rcases (allocateAlong_refused asked).2 with ⟨-, -, i, on, spent⟩ | full
      · exact absurd spent (unspent i on)
      · exact Or.inr ⟨after, rfl, full⟩
    | fault fault => exact absurd (congrArg Prod.fst asked) (quiet fault)
    | aborted wanted => exact absurd (congrArg Prod.fst asked) (allocateAlong_ne_aborted _ _ _ _)
  · exact Or.inl ⟨addr, after, rfl⟩

theorem budget_deallocateAlong (addr : Nat) (layout : Layout) (path : List (Fin T.size))
    (store : Store T π) (i : Fin T.size) :
    ((deallocateAlong addr layout path store).2.ledger i).budget = (store.ledger i).budget := by
  induction path generalizing store with
  | nil => rfl
  | cons j inner ih =>
    have struck : ((store.withLedger j ((store.ledger j).strike addr layout).2).ledger i).budget =
        (store.ledger i).budget := by
      rw [ledger_withLedger]
      split
      · next same => rw [Ledger.budget_strike, same]
      · rfl
    unfold deallocateAlong
    split
    · next accepted => exact (ih _).trans (by rwa [accepted] at struck)
    · next rejected => rwa [rejected] at struck

theorem strike_of_accepted (apart : path.Nodup)
    (accepted : (deallocateAlong addr layout path store).1 = none) :
    ∀ i ∈ path, ((store.ledger i).strike addr layout).1 = none := by
  induction path generalizing store with
  | nil => exact List.forall_mem_nil _
  | cons j inner ih =>
    obtain ⟨off, apart⟩ := List.nodup_cons.1 apart
    unfold deallocateAlong at accepted
    split at accepted
    · next here =>
      refine List.forall_mem_cons.2 ⟨by rw [here], fun i on => ?_⟩
      have differs : j ≠ i := fun same => off (same ▸ on)
      have behind := ih apart accepted i on
      rwa [ledger_withLedger, if_neg differs] at behind
    · cases accepted

/-- A return is accepted if every level accepts it, and strikes the block at every level. -/
theorem deallocateAlong_accepted (apart : path.Nodup)
    (accepted : ∀ i ∈ path, ((store.ledger i).strike addr layout).1 = none) :
    (deallocateAlong addr layout path store).1 = none ∧
      (deallocateAlong addr layout path store).2.parent =
        Parent.deallocate addr layout store.parent ∧
      ∀ i, (deallocateAlong addr layout path store).2.ledger i =
        if i ∈ path then ((store.ledger i).strike addr layout).2 else store.ledger i := by
  induction path generalizing store with
  | nil =>
    refine ⟨rfl, rfl, fun i => ?_⟩
    simp only [List.not_mem_nil, ↓reduceIte]
    rfl
  | cons j inner ih =>
    obtain ⟨off, apart⟩ := List.nodup_cons.1 apart
    have here := accepted j List.mem_cons_self
    have struck : (store.ledger j).strike addr layout =
        (none, ((store.ledger j).strike addr layout).2) := Prod.ext here rfl
    have elsewhere : ∀ i ∈ inner,
        (store.withLedger j ((store.ledger j).strike addr layout).2).ledger i =
          store.ledger i := by
      intro i on
      have differs : j ≠ i := fun same => off (same ▸ on)
      rw [ledger_withLedger, if_neg differs]
    have behind : ∀ i ∈ inner, (((store.withLedger j
        ((store.ledger j).strike addr layout).2).ledger i).strike addr layout).1 = none := by
      intro i on
      rw [elsewhere i on]
      exact accepted i (List.mem_cons_of_mem _ on)
    have deeper := ih apart behind
    rw [deallocateAlong, struck]
    refine ⟨deeper.1, deeper.2.1, fun i => (deeper.2.2 i).trans ?_⟩
    by_cases same : j = i
    · subst same
      simp only [off, ↓reduceIte, ledger_withLedger, List.mem_cons_self]
    · by_cases on : i ∈ inner
      · simp only [on, ↓reduceIte, elsewhere i on, List.mem_cons_of_mem]
      · simp only [on, ↓reduceIte, ledger_withLedger, same, List.mem_cons, Ne.symm same, or_self]

/-- A return that ends in a fault has passed the levels outside the one that found it, which all
accepted the block, and has struck the block there too; what is inside is not reached. -/
theorem deallocateAlong_fault {fault : Fault} (apart : path.Nodup)
    (failed : deallocateAlong addr layout path store = (some fault, after)) :
    ∃ passed i behind, path = passed ++ i :: behind ∧ after.parent = store.parent ∧
      (∀ j ∈ passed, ((store.ledger j).strike addr layout).1 = none) ∧
      ((store.ledger i).strike addr layout).1 = some fault ∧
      ∀ j, after.ledger j =
        if j ∈ passed ++ [i] then ((store.ledger j).strike addr layout).2 else store.ledger j := by
  induction path generalizing store with
  | nil => cases failed
  | cons k inner ih =>
    obtain ⟨off, apart⟩ := List.nodup_cons.1 apart
    rcases struck : (store.ledger k).strike addr layout with ⟨_ | found, left⟩
    · rw [deallocateAlong, struck] at failed
      obtain ⟨passed, i, behind, shape, parent, accepted, here, ledgers⟩ := ih apart failed
      have elsewhere : ∀ j, j ≠ k → (store.withLedger k left).ledger j = store.ledger j := by
        intro j differs
        rw [ledger_withLedger, if_neg (Ne.symm differs)]
      have apart_passed : ∀ j ∈ passed ++ [i], j ≠ k := by
        rintro j on rfl
        have within : passed ++ i :: behind = (passed ++ [i]) ++ behind := by simp
        rw [shape, within] at off
        exact off (List.mem_append_left _ on)
      refine ⟨k :: passed, i, behind, by rw [shape, List.cons_append], parent, ?_, ?_,
        fun j => ?_⟩
      · refine List.forall_mem_cons.2 ⟨by rw [struck], fun j on => ?_⟩
        have behind := accepted j on
        rwa [elsewhere j (apart_passed j (List.mem_append_left _ on))] at behind
      · rwa [elsewhere i (apart_passed i (List.mem_append_right _ List.mem_cons_self))] at here
      · rw [ledgers, List.cons_append]
        by_cases same : j = k
        · subst same
          have not_passed : j ∉ passed ++ [i] := fun on => apart_passed j on rfl
          rw [if_neg not_passed, if_pos List.mem_cons_self, ledger_withLedger, if_pos rfl, struck]
        · simp only [elsewhere j same, List.mem_cons, same, false_or]
    · rw [deallocateAlong, struck] at failed
      obtain ⟨rfl, rfl⟩ : found = fault ∧ store.withLedger k left = after := by
        simpa only [Prod.mk.injEq, Option.some.injEq] using failed
      refine ⟨[], k, inner, rfl, rfl, List.forall_mem_nil _, by rw [struck], fun j => ?_⟩
      simp only [ledger_withLedger, List.nil_append, List.mem_singleton]
      by_cases same : j = k
      · subst same
        simp only [↓reduceIte, struck]
      · simp only [same, Ne.symm same, ↓reduceIte]

end Store

namespace Node

variable {T : Layering} {π : Type} [Parent π] {store after : Store T π} {demand : Demand}
  {owner : Handle T} {value : Int64}

theorem ledger_free {node : Node T} (accepted : (node.free store).1 = none) :
    (∀ i ∈ node.owner.path,
      ((store.ledger i).strike node.addr (recordLayout π node.owner)).1 = none) ∧
      ∀ i, (node.free store).2.ledger i = if i ∈ node.owner.path then
        ((store.ledger i).strike node.addr (recordLayout π node.owner)).2 else store.ledger i := by
  have every := Store.strike_of_accepted node.owner.path_nodup accepted
  exact ⟨every, (Store.deallocateAlong_accepted node.owner.path_nodup every).2.2⟩

theorem budget_free (node : Node T) (store : Store T π) (i : Fin T.size) :
    ((node.free store).2.ledger i).budget = (store.ledger i).budget :=
  Store.budget_deallocateAlong _ _ _ _ i

theorem granted_of_allocate {node : Node T}
    (granted : allocate demand owner value store = (.ok node, after)) :
    ∃ between, store.allocate owner (recordLayout π owner) = (.ok node.addr, between) ∧
      after = between.emit (.nodeAllocated value node.addr) := by
  simp only [allocate] at granted
  split at granted
  · next between asked =>
    simp only [Prod.mk.injEq, Except.ok.injEq] at granted
    obtain ⟨rfl, rfl⟩ := granted
    exact ⟨between, asked, rfl⟩
  · simp only [Prod.mk.injEq, reduceCtorEq, false_and] at granted
  · simp only [Prod.mk.injEq, reduceCtorEq, false_and] at granted

/-- A node that could not be allocated comes from a request that failed, and a fault is one that
the request ended in. -/
theorem asked_of_allocate {failure : Failure}
    (failed : allocate demand owner value store = (.error failure, after)) :
    ∃ cause, store.allocate owner (recordLayout π owner) = (.error cause, after) ∧
      ∀ fault, failure = .fault fault → cause = .fault fault := by
  simp only [allocate] at failed
  split at failed
  · simp only [Prod.mk.injEq, reduceCtorEq, false_and] at failed
  · next asked =>
    simp only [Prod.mk.injEq, Except.error.injEq] at failed
    obtain ⟨rfl, rfl⟩ := failed
    refine ⟨.refused, asked, fun fault same => ?_⟩
    cases demand <;> cases same
  · next cause _ _ asked =>
    simp only [Prod.mk.injEq, Except.error.injEq] at failed
    obtain ⟨rfl, rfl⟩ := failed
    exact ⟨cause, asked, fun fault same => same⟩

theorem failed_of_asked {cause : Failure} (demand : Demand) (value : Int64)
    (asked : store.allocate owner (recordLayout π owner) = (.error cause, after)) :
    ∃ failure, allocate demand owner value store = (.error failure, after) ∧
      ∀ fault, cause = .fault fault → failure = .fault fault := by
  simp only [allocate, asked]
  cases cause with
  | refused =>
    refine ⟨_, rfl, ?_⟩
    rintro _ ⟨⟩
  | _ => exact ⟨_, rfl, fun _ same => same⟩

end Node

end ChainLedger
