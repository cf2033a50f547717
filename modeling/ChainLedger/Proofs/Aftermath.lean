import ChainLedger.Proofs.Passage

/-
Aftermath of a fault. A ledger that finds a fault has changed its books before it says so: a block
that is given back with another layout has left the record by then, and one that the level below
has handed out again has its new layout there. Main statement: exactly which faults leave the record
of live blocks as it was, so that every block can still be given back (`keeps_record_iff`).
-/

set_option autoImplicit false

namespace ChainLedger

namespace Dealing

/-- The fault that the ledger itself found in a call, not a level below. -/
def fault? : Dealing → Option Fault
  | .asked _ (some (.ok _)) (.error (.fault fault)) => some fault
  | .returned _ _ fault => fault
  | _ => none

/-- A call in which a ledger finds a fault leaves its record alone if the block given back is not on
record, or if the block handed out again is there with the layout asked for. -/
def SparesRecord (ledger : Ledger) : Dealing → Prop
  | .asked layout (some (.ok addr)) _ => ledger.live[addr]? = some layout
  | .returned addr _ _ => ledger.live[addr]? = none
  | _ => True

end Dealing

namespace Ledger

/-- The ways in which a ledger can find a fault itself, with the books that it leaves behind. -/
inductive Faulted (before : Ledger) : Dealing → Ledger → Prop where
  | absent {addr : Nat} {layout : Layout} (positive : layout.size ≠ 0)
      (free : before.live[addr]? = none) :
      Faulted before (.returned addr layout (some (.notLive addr))) before
  | mismatched {addr : Nat} {layout recorded : Layout} {after : Ledger}
      (positive : layout.size ≠ 0) (held : before.live[addr]? = some recorded)
      (differs : recorded ≠ layout) (gone : before.GivesUp addr layout 0 after) :
      Faulted before
        (.returned addr layout (some (.layoutMismatch addr layout.size recorded.size))) after
  | collided {addr : Nat} {layout recorded : Layout} {after : Ledger}
      (positive : layout.size ≠ 0) (held : before.live[addr]? = some recorded)
      (taken : before.TakesIn addr layout after) :
      Faulted before
        (.asked layout (some (.ok addr)) (.error (.fault (.liveBlockReturned addr)))) after

/-- A block can be given back once: the ledger accepts it, and no second time. -/
def ReturnsOnce (addr : Nat) (layout : Layout) (ledger : Ledger) : Prop :=
  (ledger.strike addr layout).1 = none ∧
    ((ledger.strike addr layout).2.strike addr layout).1 = some (.notLive addr)

variable {addr : Nat} {layout : Layout} {dealing : Dealing} {fault : Fault}
  {before after ledger : Ledger}

theorem returnsOnce_iff (positive : layout.size ≠ 0) :
    ledger.ReturnsOnce addr layout ↔ ledger.live[addr]? = some layout := by
  have accepted : (ledger.strike addr layout).1 = none ↔ ledger.live[addr]? = some layout :=
    strike_accepted_iff.trans (or_iff_right positive)
  refine ⟨fun once => accepted.1 once.1, fun held => ⟨accepted.2 held, ?_⟩⟩
  refine (strike_eq_some_iff positive).2 (.absent ?_)
  rw [live_strike, if_pos ⟨rfl, positive⟩]

/-- A ledger that finds a fault itself does so in one of the three ways. -/
theorem Books.faulted (books : before.Books dealing after) (found : dealing.fault? = some fault) :
    before.Faulted dealing after := by
  cases books with
  | turnedAway | failed | granted | budgeted => cases found
  | @collided layout addr fault before after unspent entered =>
    obtain ⟨rfl, positive, live⟩ := eq_of_enter_fault (congrArg Prod.fst entered)
    obtain ⟨recorded, held⟩ := isLive_iff.1 live
    have taken := takesIn_enter addr layout unspent
    rw [entered] at taken
    exact .collided positive held taken
  | @returned layout addr answer before after struck =>
    obtain rfl : answer = some fault := found
    have positive : layout.size ≠ 0 := by
      intro empty
      rw [strike_empty empty] at struck
      cases struck
    have gone := before.givesUp_strike addr layout
    rw [struck] at gone
    cases (strike_eq_some_iff positive).1 (congrArg Prod.fst struck) with
    | absent free =>
      have same : after = before := by
        refine ext_live (fun other => ?_) gone.budget gone.allocations gone.releases
        rw [gone.live]
        split
        · next here => rw [← here.1, free]
        · rfl
      subst same
      exact .absent positive free
    | mismatched held differs => exact .mismatched positive held differs gone

/-- If a fault leaves every block that was on record there, it is one of those that spare the
record. -/
theorem Faulted.sparesRecord (faulted : before.Faulted dealing after)
    (kept : ∀ (addr : Nat) (layout : Layout), before.live[addr]? = some layout →
      after.live[addr]? = some layout) : dealing.SparesRecord before := by
  cases faulted with
  | absent positive free => exact free
  | @mismatched addr _ recorded _ positive held differs gone =>
    have still := kept addr recorded held
    rw [gone.live, if_pos ⟨rfl, positive⟩] at still
    cases still
  | @collided addr layout recorded _ positive held taken =>
    have still := kept addr recorded held
    rw [taken.live, if_pos ⟨rfl, positive⟩] at still
    exact held.trans still.symm

theorem Faulted.live_eq (faulted : before.Faulted dealing after)
    (spared : dealing.SparesRecord before) : after.live = before.live := by
  cases faulted with
  | absent => rfl
  | mismatched positive held => cases held.symm.trans spared
  | @collided addr layout _ _ positive held taken =>
    refine Std.ExtTreeMap.ext_getElem? fun {other} => ?_
    rw [taken.live]
    split
    · next here =>
      rw [← here.1]
      exact spared.symm
    · rfl

/-- A call made on a ledger that finds a fault itself ends in this fault. -/
theorem Faulted.ends {result : Except Failure (Option Nat)} (faulted : before.Faulted dealing after)
    (found : dealing.fault? = some fault) (ends : dealing.Ends result) :
    result = .error (.fault fault) := by
  cases faulted with
  | absent | mismatched | collided =>
    cases found
    exact ends

theorem Faulted.live_eq_iff (faulted : before.Faulted dealing after) :
    after.live = before.live ↔ dealing.SparesRecord before :=
  ⟨fun same => faulted.sparesRecord fun addr layout held => by rw [same, held], faulted.live_eq⟩

theorem Faulted.returnsOnce_iff (faulted : before.Faulted dealing after)
    (positive : ∀ (addr : Nat) (layout : Layout), before.live[addr]? = some layout →
      layout.size ≠ 0) :
    (∀ (addr : Nat) (layout : Layout), before.live[addr]? = some layout →
      after.ReturnsOnce addr layout) ↔ dealing.SparesRecord before := by
  constructor
  · intro returnable
    exact faulted.sparesRecord fun addr layout held =>
      (Ledger.returnsOnce_iff (positive addr layout held)).1 (returnable addr layout held)
  · intro spared addr layout held
    rw [Ledger.returnsOnce_iff (positive addr layout held), faulted.live_eq spared, held]

end Ledger

section Runs

variable {T : Layering} {π : Type} [Parent π]

/-- A block that a ledger has on record has bytes, whatever has been asked of the ledgers. -/
theorem Store.size_ne_zero_of_recorded (budgets : Fin T.size → Option Nat) (parent : π)
    (calls : List (Call T)) (i : Fin T.size) {addr : Nat} {layout : Layout}
    (held : ((Store.calls calls (.opened budgets parent : Store T π)).2.ledger i).live[addr]? =
      some layout) : layout.size ≠ 0 := by
  rw [live_calls, ledger_opened] at held
  cases heard : Notice.last? addr (notices i calls (.opened budgets parent)) with
  | none =>
    rw [heard] at held
    simp only [Ledger.opened, Std.ExtTreeMap.getElem?_empty, reduceCtorEq] at held
  | some notice =>
    rw [heard] at held
    have concerned := (Notice.concerns_of_last? heard).2
    cases notice with
    | granted =>
      obtain rfl := Option.some.inj held
      exact concerned
    | returned => cases held

/-- Whatever the parent answers and whatever has been asked of the ledgers, the record of live
blocks outlives a fault that a ledger finds exactly if the block given back was not on record, or
if the one handed out again was there with the same layout; and exactly then every block that was
live can still be given back. -/
theorem keeps_record_iff (budgets : Fin T.size → Option Nat) (parent : π) (calls : List (Call T))
    (i : Fin T.size) (call : Call T) {dealing : Dealing} {fault : Fault}
    (dealt : (Store.calls calls (.opened budgets parent : Store T π)).2.dealing? i call =
      some dealing) (found : dealing.fault? = some fault) :
    let store := (Store.calls calls (.opened budgets parent : Store T π)).2
    let before := store.ledger i
    let after := (store.call call).2.ledger i
    before.Faulted dealing after ∧
      (after.live = before.live ↔ dealing.SparesRecord before) ∧
      ((∀ (addr : Nat) (layout : Layout), before.live[addr]? = some layout →
        after.ReturnsOnce addr layout) ↔ dealing.SparesRecord before) ∧
      (call.ledger = i → (store.call call).1 = .error (.fault fault)) := by
  intro store before after
  have books := Store.books_call (i := i) call store
  rw [dealt] at books
  have faulted : before.Faulted dealing after := books.faulted found
  refine ⟨faulted, faulted.live_eq_iff, faulted.returnsOnce_iff fun addr layout held =>
    Store.size_ne_zero_of_recorded budgets parent calls i held, fun here => ?_⟩
  obtain ⟨again, dealt', ends⟩ := Store.ends_call call store
  rw [here] at dealt'
  obtain rfl : again = dealing := Option.some.inj (dealt'.symm.trans dealt)
  exact faulted.ends found ends

/-- A block is given back behind the back of a ledger that stands further out, and then through it:
the ledger below finds that it is not live, and keeps the other one. -/
theorem keeps_record_iff_fork :
    let i : Fin Layering.fork.size := (0 : Fin 3)
    let calls : List (Call .fork) := [.allocate (1 : Fin 3) ⟨24, 8⟩,
      .allocate (2 : Fin 3) ⟨16, 8⟩, .allocate (1 : Fin 3) ⟨0, 1⟩, .deallocate i 4120 ⟨16, 8⟩]
    let call : Call .fork := .deallocate (2 : Fin 3) 4120 ⟨16, 8⟩
    let store : Store .fork Arena :=
      (Store.calls calls (.opened (fun _ => none) (.ofCapacity 4096))).2
    let dealing : Dealing := .returned 4120 ⟨16, 8⟩ (some (.notLive 4120))
    store.dealing? i call = some dealing ∧ dealing.fault? = some (.notLive 4120) ∧
      ((store.call call).2.ledger i).ReturnsOnce 4096 ⟨24, 8⟩ := by
  intro i calls call store dealing
  have comes : Store.comesBy i 4120 ⟨16, 8⟩ (Layering.fork.path (2 : Fin 3)) store = true := by
    decide +kernel
  have missing : ((store.ledger i).strike 4120 ⟨16, 8⟩).1 = some (.notLive 4120) := by
    decide +kernel
  have dealt : store.dealing? i call = some dealing := by
    simp only [call, dealing, Store.dealing?, comes, missing, ↓reduceIte]
  obtain ⟨-, -, returnable, -⟩ := keeps_record_iff (fun _ => none) (Arena.ofCapacity 4096) calls i
    call dealt rfl
  refine ⟨dealt, rfl, returnable.2 ?_ 4096 ⟨24, 8⟩ ?_⟩
  · show (store.ledger i).live[4120]? = none
    decide +kernel
  · show (store.ledger i).live[4096]? = some ⟨24, 8⟩
    decide +kernel

/-- A fault can cost a live block its place on record, and another its layout, after which neither
can be given back as it was allocated. -/
theorem record_lost_single :
    let i : Fin Layering.single.size := (0 : Fin 1)
    let store : Store .single Arena := (Store.calls [.allocate i ⟨24, 8⟩, .allocate i ⟨24, 8⟩]
      (.opened (fun _ => none) (.ofCapacity 4096))).2
    let mistaken := store.call (.deallocate i 4096 ⟨16, 8⟩)
    let collided := (mistaken.2.configure (show Nat from 4120)).call (.allocate i ⟨16, 8⟩)
    (store.ledger i).snapshot = [(4096, 24), (4120, 24)] ∧
      mistaken.1 = .error (.fault (.layoutMismatch 4096 16 24)) ∧
      (mistaken.2.ledger i).snapshot = [(4120, 24)] ∧
      collided.1 = .error (.fault (.liveBlockReturned 4120)) ∧
      (collided.2.ledger i).snapshot = [(4120, 16)] ∧
      (collided.2.call (.deallocate i 4096 ⟨24, 8⟩)).1 = .error (.fault (.notLive 4096)) ∧
      (collided.2.call (.deallocate i 4120 ⟨24, 8⟩)).1 =
        .error (.fault (.layoutMismatch 4120 24 16)) := by
  decide +kernel

end Runs

end ChainLedger
