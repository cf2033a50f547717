import ChainLedger.Call
import ChainLedger.Parent.Arena
import ChainLedger.Proofs.Request
import Mathlib.Data.List.Basic

/-
Nested ledgers. What is live in a ledger is live in the one it stands on, and ledgers that stand on
the same one hold different blocks (`Nested`). Each of the two needs the other: a request enters a
block from the inside outwards and a return strikes it from the outside inwards, and either can
stop on the way.
-/

set_option autoImplicit false

namespace ChainLedger

variable {T : Layering} {π : Type}

/-- How the live blocks of a ledger lie within those of the ledger it stands on. -/
structure Nested (store : Store T π) : Prop where
  within : ∀ i j, T.below i = some j → ∀ addr,
    (store.ledger i).isLive addr = true → (store.ledger j).isLive addr = true
  apart : ∀ i j k, T.below i = some k → T.below j = some k → i ≠ j → ∀ addr,
    (store.ledger i).isLive addr = true → (store.ledger j).isLive addr = false

/-- A ledger and the one it stands on record the same layout for the same block. -/
def Agreeing (store : Store T π) : Prop :=
  ∀ i j, T.below i = some j → ∀ (addr : Nat) (layout : Layout),
    (store.ledger i).live[addr]? = some layout → (store.ledger j).live[addr]? = some layout

/-- A return spares what stands above if no ledger on the addressed one holds the block. -/
def Call.Spares (store : Store T π) : Call T → Prop
  | .deallocate i addr layout =>
      layout.size ≠ 0 → ∀ j, T.below j = some i → (store.ledger j).isLive addr = false
  | _ => True

instance (store : Store T π) (call : Call T) : Decidable (call.Spares store) :=
  match call with
  | .allocate .. => inferInstanceAs (Decidable True)
  | .deallocate i addr layout => inferInstanceAs (Decidable (layout.size ≠ 0 →
      ∀ j, T.below j = some i → (store.ledger j).isLive addr = false))
  | .setBudget .. => inferInstanceAs (Decidable True)

/-- Every call of a run spares what stands above. -/
def Store.Spared [Parent π] : List (Call T) → Store T π → Prop
  | [], _ => True
  | call :: later, store => call.Spares store ∧ Store.Spared later (store.call call).2

instance Store.decidableSpared [Parent π] :
    (calls : List (Call T)) → (store : Store T π) → Decidable (Store.Spared calls store)
  | [], _ => inferInstanceAs (Decidable True)
  | call :: later, store =>
      have := Store.decidableSpared later (store.call call).2
      inferInstanceAs (Decidable (_ ∧ _))

section Levels

variable {store after : Store T π} {addr : Nat} {layout : Layout}

theorem Nested.of_live_eq (nested : Nested store)
    (live : ∀ i, (after.ledger i).live = (store.ledger i).live) : Nested after where
  within i j stands addr := by
    simp only [Ledger.isLive, live]
    exact nested.within i j stands addr
  apart i j k first second differs addr := by
    simp only [Ledger.isLive, live]
    exact nested.apart i j k first second differs addr

theorem Agreeing.of_live_eq (agreeing : Agreeing store)
    (live : ∀ i, (after.ledger i).live = (store.ledger i).live) : Agreeing after := by
  intro i j stands addr layout
  rw [live i, live j]
  exact agreeing i j stands addr layout

theorem Nested.opened (budgets : Fin T.size → Option Nat) (parent : π) :
    Nested (Store.opened budgets parent) where
  within i j _ addr live := by
    simp only [Store.ledger_opened, Ledger.opened, Ledger.isLive,
      Std.ExtTreeMap.contains_empty, Bool.false_eq_true] at live
  apart i j k _ _ _ addr live := by
    simp only [Store.ledger_opened, Ledger.opened, Ledger.isLive,
      Std.ExtTreeMap.contains_empty, Bool.false_eq_true] at live

theorem Agreeing.opened (budgets : Fin T.size → Option Nat) (parent : π) :
    Agreeing (Store.opened budgets parent) := by
  intro i j _ addr layout found
  simp only [Store.ledger_opened, Ledger.opened, Std.ExtTreeMap.getElem?_empty,
    reduceCtorEq] at found

/-- A block that was live nowhere on a path can be entered at every level of it. -/
theorem Nested.enter_path (nested : Nested store) (i : Fin T.size)
    (fresh : ∀ k ∈ T.path i, ((store.ledger k).enter addr layout).1 = none)
    (ledgers : ∀ k, after.ledger k =
      if k ∈ T.path i then ((store.ledger k).enter addr layout).2 else store.ledger k) :
    Nested after := by
  have live : ∀ k other, (after.ledger k).isLive other = true ↔
      (store.ledger k).isLive other = true ∨
        k ∈ T.path i ∧ addr = other ∧ layout.size ≠ 0 := by
    intro k other
    rw [ledgers]
    split
    · next on => simp only [Ledger.isLive_enter, on, true_and]
    · next off => simp only [off, false_and, or_false]
  have absent : layout.size ≠ 0 → ∀ k ∈ T.path i, (store.ledger k).isLive addr ≠ true := by
    intro positive k on
    have accepted := (Ledger.enter_accepted_iff.1 (fresh k on)).resolve_left positive
    simp only [accepted, Bool.false_eq_true, ne_eq, not_false_eq_true]
  refine ⟨fun k l stands other found => ?_, fun k l m first second differs other found => ?_⟩
  · rw [live] at found ⊢
    rcases found with old | ⟨on, same, positive⟩
    · exact Or.inl (nested.within k l stands other old)
    · exact Or.inr ⟨Layering.mem_path_below on stands, same, positive⟩
  · rw [← Bool.not_eq_true, live]
    rw [live] at found
    rintro (older | ⟨beside, rfl, positive⟩)
    · rcases found with old | ⟨on, rfl, positive⟩
      · have free := nested.apart k l m first second differs other old
        rw [older] at free
        cases free
      · exact absent positive m (Layering.mem_path_below on first)
          (nested.within l m second _ older)
    · rcases found with old | ⟨on, _, _⟩
      · exact absent positive m (Layering.mem_path_below beside second)
          (nested.within k m first _ old)
      · exact differs (Layering.eq_of_below_eq on beside first second)

theorem Agreeing.enter_path (agreeing : Agreeing store) (nested : Nested store) (i : Fin T.size)
    (fresh : ∀ k ∈ T.path i, ((store.ledger k).enter addr layout).1 = none)
    (ledgers : ∀ k, after.ledger k =
      if k ∈ T.path i then ((store.ledger k).enter addr layout).2 else store.ledger k) :
    Agreeing after := by
  have live : ∀ k other, (after.ledger k).live[other]? =
      if k ∈ T.path i ∧ addr = other ∧ layout.size ≠ 0 then some layout
      else (store.ledger k).live[other]? := by
    intro k other
    rw [ledgers]
    split
    · next on => simp only [Ledger.live_enter, on, true_and]
    · next off => simp only [off, false_and, ↓reduceIte]
  intro k l stands other recorded found
  rw [live] at found ⊢
  split at found
  · next entered =>
    rw [if_pos ⟨Layering.mem_path_below entered.1 stands, entered.2⟩]
    exact found
  · split
    · next entered =>
      -- The block came new to the ledger below, so it was not live above it either.
      obtain ⟨on, rfl, positive⟩ := entered
      have accepted := (Ledger.enter_accepted_iff.1 (fresh l on)).resolve_left positive
      have held : (store.ledger k).isLive addr = true := Ledger.isLive_iff.2 ⟨recorded, found⟩
      rw [nested.within k l stands addr held] at accepted
      cases accepted
    · exact agreeing k l stands other recorded found

/-- A block can be struck from a ledger if no ledger standing on it holds the block. -/
theorem Nested.strike (nested : Nested store) (i : Fin T.size)
    (free : layout.size ≠ 0 → ∀ j, T.below j = some i → (store.ledger j).isLive addr = false) :
    Nested (store.withLedger i ((store.ledger i).strike addr layout).2) := by
  have live : ∀ k other,
      ((store.withLedger i ((store.ledger i).strike addr layout).2).ledger k).isLive other =
        true ↔
      (store.ledger k).isLive other = true ∧ ¬ (i = k ∧ addr = other ∧ layout.size ≠ 0) := by
    intro k other
    rw [Store.ledger_withLedger]
    split
    · next same => subst same; simp only [Ledger.isLive_strike, true_and]
    · next differs => simp only [differs, false_and, not_false_eq_true, and_true]
  refine ⟨fun k l stands other found => ?_, fun k l m first second differs other found => ?_⟩
  · rw [live] at found ⊢
    refine ⟨nested.within k l stands other found.1, ?_⟩
    rintro ⟨rfl, rfl, positive⟩
    have absent := free positive k stands
    rw [found.1] at absent
    cases absent
  · rw [← Bool.not_eq_true, live]
    rw [live] at found
    rintro ⟨older, -⟩
    have absent := nested.apart k l m first second differs other found.1
    rw [older] at absent
    cases absent

theorem Agreeing.strike (agreeing : Agreeing store) (i : Fin T.size)
    (free : layout.size ≠ 0 → ∀ j, T.below j = some i → (store.ledger j).isLive addr = false) :
    Agreeing (store.withLedger i ((store.ledger i).strike addr layout).2) := by
  have live : ∀ k other,
      ((store.withLedger i ((store.ledger i).strike addr layout).2).ledger k).live[other]? =
        if i = k ∧ addr = other ∧ layout.size ≠ 0 then none
        else (store.ledger k).live[other]? := by
    intro k other
    rw [Store.ledger_withLedger]
    split
    · next same => subst same; simp only [Ledger.live_strike, true_and]
    · next differs => simp only [differs, false_and, ↓reduceIte]
  intro k l stands other recorded found
  rw [live] at found ⊢
  split at found
  · cases found
  · rw [if_neg ?_]
    · exact agreeing k l stands other recorded found
    · rintro ⟨rfl, rfl, positive⟩
      have absent := free positive k stands
      rw [Ledger.isLive_iff.2 ⟨recorded, found⟩] at absent
      cases absent

/-- Where the layouts agree, what one ledger accepts back is accepted at every level below. -/
theorem Agreeing.strike_accepted (agreeing : Agreeing store) {i : Fin T.size}
    (accepted : ((store.ledger i).strike addr layout).1 = none) :
    ∀ j ∈ T.path i, ((store.ledger j).strike addr layout).1 = none := by
  induction i using Layering.induction_inward with
  | bottom i stands =>
    intro j on
    rw [Layering.path_of_below_none stands, List.mem_singleton] at on
    rw [on]
    exact accepted
  | above i k stands ih =>
    intro j on
    rw [Layering.path_of_below_some stands, List.mem_cons] at on
    rcases on with rfl | on
    · exact accepted
    · rw [Ledger.strike_accepted_iff] at accepted
      exact ih (Ledger.strike_accepted_iff.2
        (accepted.imp_right (agreeing i k stands addr layout))) j on

end Levels

section Calls

variable [Parent π] {store after : Store T π} {addr : Nat} {layout : Layout}

/-- In nested ledgers only the ledger on the parent can find that a block is live already. -/
theorem Nested.fault_at_bottom (nested : Nested store) {i : Fin T.size} {fault : Fault}
    (failed : Store.allocateAlong layout (T.path i) store = (.error (.fault fault), after)) :
    ∃ addr j, j ∈ T.path i ∧ T.below j = none ∧
      ((store.ledger j).enter addr layout).1 = some fault ∧
      ∀ k, after.ledger k =
        if k = j then ((store.ledger k).enter addr layout).2 else store.ledger k := by
  obtain ⟨addr, outer, j, inner, shape, _, _, here, accepted, ledgers⟩ :=
    Store.allocateAlong_fault (T.path_nodup i) failed
  obtain ⟨_, positive, live⟩ := Ledger.eq_of_enter_fault here
  have rest := Layering.path_of_append shape
  have on : j ∈ T.path i := by
    rw [shape]
    exact List.mem_append_right _ List.mem_cons_self
  cases stands : T.below j with
  | none =>
    rw [Layering.path_of_below_none stands, List.cons.injEq] at rest
    obtain rfl := rest.2.symm
    refine ⟨addr, j, on, stands, here, fun k => ?_⟩
    simp only [ledgers, List.mem_singleton]
  | some l =>
    rw [Layering.path_of_below_some stands, List.cons.injEq] at rest
    have fresh := Ledger.enter_accepted_iff.1
      (accepted l (rest.2 ▸ Layering.mem_path_self l))
    rw [nested.within j l stands addr live] at fresh
    simp only [positive, Bool.true_eq_false, or_self] at fresh

theorem Nested.allocate (nested : Nested store) (i : Fin T.size) (layout : Layout) :
    Nested (store.allocate (some i) layout).2 := by
  simp only [Store.allocate, Handle.path]
  rcases asked : Store.allocateAlong layout (T.path i) store with ⟨(_ | fault | wanted) | addr, after⟩
  · exact nested.of_live_eq fun k => congrArg Ledger.live ((Store.allocateAlong_refused asked).1 k)
  · obtain ⟨addr, j, _, _, here, ledgers⟩ := nested.fault_at_bottom asked
    obtain ⟨_, _, live⟩ := Ledger.eq_of_enter_fault here
    -- The block was live in the bottom ledger before, so the same blocks are live as before.
    have same : ∀ k other, (after.ledger k).isLive other = (store.ledger k).isLive other := by
      intro k other
      rw [ledgers]
      split
      · next bottom =>
        subst bottom
        rw [Bool.eq_iff_iff, Ledger.isLive_enter]
        exact ⟨fun either => either.elim id fun entered => entered.1 ▸ live, Or.inl⟩
      · rfl
    refine ⟨fun k l stands other found => ?_, fun k l m first second differs other found => ?_⟩
    · rw [same] at found ⊢
      exact nested.within k l stands other found
    · rw [same] at found ⊢
      exact nested.apart k l m first second differs other found
  · exact absurd (congrArg Prod.fst asked) (Store.allocateAlong_ne_aborted _ _ _ _)
  · obtain ⟨_, _, accepted, ledgers⟩ := Store.allocateAlong_ok (T.path_nodup i) asked
    exact nested.enter_path i accepted ledgers

theorem Agreeing.allocate (agreeing : Agreeing store) (nested : Nested store) (i : Fin T.size)
    (layout : Layout)
    (sound : ∀ fault, (store.allocate (some i) layout).1 ≠ .error (.fault fault)) :
    Agreeing (store.allocate (some i) layout).2 := by
  simp only [Store.allocate, Handle.path] at sound ⊢
  rcases asked : Store.allocateAlong layout (T.path i) store with ⟨(_ | fault | wanted) | addr, after⟩
  · exact agreeing.of_live_eq fun k =>
      congrArg Ledger.live ((Store.allocateAlong_refused asked).1 k)
  · exact absurd (congrArg Prod.fst asked) (sound fault)
  · exact absurd (congrArg Prod.fst asked) (Store.allocateAlong_ne_aborted _ _ _ _)
  · obtain ⟨_, _, accepted, ledgers⟩ := Store.allocateAlong_ok (T.path_nodup i) asked
    exact agreeing.enter_path nested i accepted ledgers

/-- What a strike keeps in nested ledgers, as long as what stands above is spared, is kept by a
whole return, wherever it stops. The levels still to come are spared too: of the ledgers on one of
them, the one just struck was the holder. -/
theorem Nested.deallocate_keeps {Kept : Store T π → Prop}
    (of_live_eq : ∀ {store after : Store T π}, Kept store →
      (∀ i, (after.ledger i).live = (store.ledger i).live) → Kept after)
    (strike : ∀ {store : Store T π} (i : Fin T.size), Kept store →
      (layout.size ≠ 0 → ∀ j, T.below j = some i → (store.ledger j).isLive addr = false) →
      Kept (store.withLedger i ((store.ledger i).strike addr layout).2))
    (nested : Nested store) (kept : Kept store) (i : Fin T.size)
    (free : layout.size ≠ 0 → ∀ j, T.below j = some i → (store.ledger j).isLive addr = false) :
    Kept (Store.deallocateAlong addr layout (T.path i) store).2 := by
  induction i using Layering.induction_inward generalizing store with
  | bottom i stands =>
    have struck := strike i kept free
    simp only [Layering.path_of_below_none stands, Store.deallocateAlong]
    split
    · next accepted =>
      rw [accepted] at struck
      exact of_live_eq struck fun k => rfl
    · next failed =>
      rw [failed] at struck
      exact struck
  | above i j stands ih =>
    have struck := strike i kept free
    have nested' := nested.strike i free
    simp only [Layering.path_of_below_some stands, Store.deallocateAlong]
    split
    · next after accepted =>
      rw [accepted] at struck nested'
      refine ih nested' struck fun positive k onto => ?_
      rw [Store.ledger_withLedger]
      split
      · next same =>
        subst same
        have gone := Ledger.isLive_strike (store.ledger i) addr layout addr
        simpa only [accepted, positive, ne_eq, not_false_eq_true, and_self, not_true_eq_false,
          and_false, iff_false, Bool.not_eq_true] using gone
      · next differs =>
        have found := Ledger.strike_accepted_iff.1 (congrArg Prod.fst accepted)
        have held := Ledger.isLive_iff.2 ⟨layout, found.resolve_left positive⟩
        exact nested.apart i k j stands onto differs addr held
    · next failed =>
      rw [failed] at struck
      exact struck

theorem Nested.deallocate (nested : Nested store) (i : Fin T.size)
    (free : layout.size ≠ 0 → ∀ j, T.below j = some i → (store.ledger j).isLive addr = false) :
    Nested (store.deallocate (some i) addr layout).2 :=
  nested.deallocate_keeps Nested.of_live_eq (fun i kept => kept.strike i) nested i free

theorem Agreeing.deallocate (agreeing : Agreeing store) (nested : Nested store) (i : Fin T.size)
    (free : layout.size ≠ 0 → ∀ j, T.below j = some i → (store.ledger j).isLive addr = false) :
    Agreeing (store.deallocate (some i) addr layout).2 :=
  nested.deallocate_keeps Agreeing.of_live_eq (fun i kept => kept.strike i) agreeing i free

theorem Nested.call (nested : Nested store) (call : Call T) (spares : call.Spares store) :
    Nested (store.call call).2 := by
  cases call with
  | allocate i layout =>
    have kept := nested.allocate i layout
    simp only [Store.call]
    split <;> next asked => rw [asked] at kept; exact kept
  | deallocate i addr layout =>
    have kept := nested.deallocate i spares
    simp only [Store.call]
    split <;> next returned => rw [returned] at kept; exact kept
  | setBudget i budget => exact nested.of_live_eq (store.live_setBudget i budget)

theorem Agreeing.call (agreeing : Agreeing store) (nested : Nested store) (call : Call T)
    (spares : call.Spares store)
    (sound : ∀ addr, (store.call call).1 ≠ .error (.fault (.liveBlockReturned addr))) :
    Agreeing (store.call call).2 := by
  cases call with
  | allocate i layout =>
    have kept := agreeing.allocate nested i layout fun fault failed => by
      obtain ⟨addr, j, _, _, here, _⟩ := nested.fault_at_bottom (Prod.ext failed rfl)
      apply sound addr
      simp only [Store.call]
      split
      · next asked => rw [asked] at failed; cases failed
      · next asked =>
        rw [asked] at failed
        rw [← (Ledger.eq_of_enter_fault here).1]
        exact congrArg Except.error (Except.error.inj failed)
    simp only [Store.call]
    split <;> next asked => rw [asked] at kept; exact kept
  | deallocate i addr layout =>
    have kept := agreeing.deallocate nested i spares
    simp only [Store.call]
    split <;> next returned => rw [returned] at kept; exact kept
  | setBudget i budget => exact agreeing.of_live_eq (store.live_setBudget i budget)

theorem Nested.calls (nested : Nested store) (calls : List (Call T))
    (spared : Store.Spared calls store) :
    Nested (Store.calls calls store).2 ∧
      ((∀ addr, .error (.fault (.liveBlockReturned addr)) ∉ (Store.calls calls store).1) →
        Agreeing store → Agreeing (Store.calls calls store).2) := by
  induction calls generalizing store with
  | nil => exact ⟨nested, fun _ agreeing => agreeing⟩
  | cons call later ih =>
    obtain ⟨kept, agree⟩ := ih (nested.call call spared.1) spared.2
    refine ⟨kept, fun sound agreeing => agree (fun addr on => ?_) ?_⟩
    · exact sound addr (List.mem_cons_of_mem _ on)
    · exact agreeing.call nested call spared.1 fun addr failed =>
        sound addr (List.mem_cons.2 (Or.inl failed.symm))

/-- However ledgers stand on each other and whatever the parent does, as long as returns spare what
stands above: blocks live in a ledger are live below it, ledgers side by side share none, and only
a ledger on the parent can find a block live already. If that never happens the layouts agree too,
and what one ledger accepts back is accepted at every level below. -/
theorem nested_calls (budgets : Fin T.size → Option Nat) (parent : π) (calls : List (Call T))
    (spared : Store.Spared calls (.opened budgets parent)) :
    let answers := (Store.calls calls (.opened budgets parent)).1
    let after := (Store.calls calls (.opened budgets parent)).2
    Nested after ∧
      (∀ i j, T.below i = some j → ∀ layout addr inner,
        after.allocate (some j) layout = (.ok addr, inner) →
          ((inner.ledger i).enter addr layout).1 = none) ∧
      (∀ i layout fault inner, after.allocate (some i) layout = (.error (.fault fault), inner) →
        ∃ bottom ∈ T.path i, T.below bottom = none ∧
          ∃ addr, ((after.ledger bottom).enter addr layout).1 = some fault) ∧
      ((∀ addr, .error (.fault (.liveBlockReturned addr)) ∉ answers) →
        Agreeing after ∧
          ∀ i addr layout, ((after.ledger i).strike addr layout).1 = none →
            (∀ j ∈ T.path i, ((after.ledger j).strike addr layout).1 = none) ∧
              (after.deallocate (some i) addr layout).1 = none) := by
  intro answers after
  obtain ⟨nested, agree⟩ := (Nested.opened budgets parent).calls calls spared
  refine ⟨nested, fun i j stands layout addr inner granted => ?_,
    fun i layout fault inner failed => ?_, fun sound => ?_⟩
  · obtain ⟨_, _, accepted, ledgers⟩ := Store.allocateAlong_ok (T.path_nodup j) granted
    have off : i ∉ T.path j := fun on => Layering.below_ne_of_mem_path on stands
    rw [ledgers i, if_neg off, Ledger.enter_accepted_iff]
    apply (Ledger.enter_accepted_iff.1 (accepted j (Layering.mem_path_self j))).imp_right
    intro free
    rw [← Bool.not_eq_true] at free ⊢
    exact mt (nested.within i j stands addr) free
  · obtain ⟨addr, bottom, on, stands, here, _⟩ := nested.fault_at_bottom failed
    exact ⟨bottom, on, stands, addr, here⟩
  · have agreeing := agree sound (Agreeing.opened budgets parent)
    refine ⟨agreeing, fun i addr layout accepted => ?_⟩
    have below := agreeing.strike_accepted accepted
    exact ⟨below, (Store.deallocateAlong_accepted (T.path_nodup i) below).1⟩

/-- Two ledgers on a third, one of which is asked for a block of the other and then has its own
block returned with another layout, before the ledger below takes it back. -/
theorem nested_calls_fork :
    let calls : List (Call .fork) := [.allocate (1 : Fin 3) ⟨24, 8⟩,
      .allocate (2 : Fin 3) ⟨24, 8⟩, .deallocate (1 : Fin 3) 4120 ⟨24, 8⟩,
      .setBudget (0 : Fin 3) (some 1), .deallocate (2 : Fin 3) 4120 ⟨16, 8⟩,
      .deallocate (0 : Fin 3) 4120 ⟨24, 8⟩]
    let start : Store .fork Arena := .opened (fun _ => none) (.ofCapacity 4096)
    Store.Spared calls start ∧ Nested (Store.calls calls start).2 ∧
      Agreeing (Store.calls calls start).2 := by
  intro calls start
  have spared : Store.Spared calls start := by decide +kernel
  obtain ⟨nested, _, _, agree⟩ := nested_calls (fun _ => none) (Arena.ofCapacity 4096) calls spared
  refine ⟨spared, nested, (agree fun addr on => ?_).1⟩
  have answers : (Store.calls calls start).1 =
      [.ok (some 4096), .ok (some 4120), .error (.fault (.notLive 4120)), .ok none,
        .error (.fault (.layoutMismatch 4120 16 24)), .ok none] := by decide +kernel
  rw [answers] at on
  simp only [List.mem_cons, reduceCtorEq, Except.error.injEq, Failure.fault.injEq,
    List.not_mem_nil, or_self] at on

end Calls

end ChainLedger
