import ChainLedger.Call
import ChainLedger.Parent.Arena
import ChainLedger.Proofs.Request

set_option autoImplicit false

namespace ChainLedger

/-- What a ledger hears of a block. -/
inductive Notice where
  /-- The level below has handed out the block. -/
  | granted (addr : Nat) (layout : Layout)
  /-- The block is given back, rightly or not. -/
  | returned (addr : Nat) (layout : Layout)
deriving DecidableEq

namespace Notice

def addr : Notice → Nat
  | granted addr _ => addr
  | returned addr _ => addr

def layout : Notice → Layout
  | granted _ layout => layout
  | returned _ layout => layout

def recorded : Notice → Option Layout
  | granted _ layout => some layout
  | returned .. => none

/-- Whether a notice concerns the block at an address. Blocks without bytes share their addresses,
so a notice of one concerns no block. -/
def Concerns (addr : Nat) (notice : Notice) : Prop :=
  notice.addr = addr ∧ notice.layout.size ≠ 0

instance (addr : Nat) (notice : Notice) : Decidable (notice.Concerns addr) :=
  inferInstanceAs (Decidable (_ ∧ _))

/-- The last notice in a history that concerns the block at an address. -/
def last? (addr : Nat) (history : List Notice) : Option Notice :=
  (history.filter fun notice => notice.Concerns addr).getLast?

theorem concerns_of_last? {addr : Nat} {history : List Notice} {notice : Notice}
    (found : last? addr history = some notice) : notice.Concerns addr := by
  have member := List.mem_of_getLast? found
  exact of_decide_eq_true (List.mem_filter.1 member).2

theorem last?_append (addr : Nat) (earlier later : List Notice) :
    last? addr (earlier ++ later) = (last? addr later).or (last? addr earlier) := by
  rw [last?, List.filter_append, List.getLast?_append]
  rfl

theorem last?_singleton (addr : Nat) (notice : Notice) :
    last? addr [notice] = if notice.Concerns addr then some notice else none := by
  by_cases concerns : notice.Concerns addr
  · simp only [last?, concerns, decide_true, List.filter_cons_of_pos, List.filter_nil,
      List.getLast?_singleton, ↓reduceIte]
  · simp only [last?, concerns, decide_false, Bool.false_eq_true, not_false_eq_true,
      List.filter_cons_of_neg, List.filter_nil, List.getLast?_nil, ↓reduceIte]

/-- A grant is the last that was heard exactly if it leaves its layout on record. -/
theorem last?_eq_granted_iff {addr : Nat} {history : List Notice} {layout : Layout} :
    last? addr history = some (.granted addr layout) ↔
      (last? addr history).bind recorded = some layout := by
  cases found : last? addr history with
  | none => simp only [Option.bind_none, reduceCtorEq]
  | some notice =>
    obtain ⟨same, _⟩ := concerns_of_last? found
    cases notice with
    | granted at_ held =>
      obtain rfl : at_ = addr := same
      simp only [Option.bind_some, recorded, Option.some.injEq, granted.injEq, true_and]
    | returned at_ held =>
      simp only [Option.bind_some, recorded, Option.some.injEq, reduceCtorEq]

end Notice

namespace Store

variable {T : Layering} {π : Type}

/-- Whether a return that is made along a path comes by ledger `i`. -/
def comesBy (i : Fin T.size) (addr : Nat) (layout : Layout) :
    List (Fin T.size) → Store T π → Bool
  | [], _ => false
  | j :: inner, store =>
      j = i || ((store.ledger j).strike addr layout).1.isNone && comesBy i addr layout inner store

/-- Whether a return comes by is decided by the ledgers on its path. -/
theorem comesBy_withLedger {store : Store T π} {i j : Fin T.size} (addr : Nat) (layout : Layout)
    {path : List (Fin T.size)} (off : j ∉ path) (ledger : Ledger) :
    comesBy i addr layout path (store.withLedger j ledger) = comesBy i addr layout path store := by
  induction path with
  | nil => rfl
  | cons k inner ih =>
    simp only [List.mem_cons, not_or] at off
    simp only [comesBy, ledger_withLedger, off.1, ↓reduceIte, ih off.2]

variable [Parent π]

/-- The block that ledger `i` is handed from below when a request is made along a path, if the
request comes by the ledger and is granted below it. -/
def grantAt (i : Fin T.size) (layout : Layout) : List (Fin T.size) → Store T π → Option Nat
  | [], _ => none
  | j :: inner, store =>
      if (store.ledger j).IsSpent then none
      else if j = i then (allocateAlong layout inner store).1.toOption
      else grantAt i layout inner store

/-- What ledger `i` hears of a call, be it made at this ledger or at one that stands on it. -/
def notice? (i : Fin T.size) (store : Store T π) : Call T → Option Notice
  | .allocate j layout => (grantAt i layout (T.path j) store).map (.granted · layout)
  | .deallocate j addr layout =>
      if comesBy i addr layout (T.path j) store then some (.returned addr layout) else none
  | .setBudget .. => none

/-- What ledger `i` hears while calls are answered one after the other. -/
def notices (i : Fin T.size) : List (Call T) → Store T π → List Notice
  | [], _ => []
  | call :: later, store => (store.notice? i call).toList ++ notices i later (store.call call).2

section Levels

variable {store : Store T π} {i : Fin T.size}

/-- Of a request made at the ledger itself it hears what the level below answers. -/
theorem notice?_allocate (layout : Layout) (unspent : ¬ (store.ledger i).IsSpent) :
    store.notice? i (.allocate i layout) =
      (store.allocate (T.below i) layout).1.toOption.map (.granted · layout) := by
  rw [notice?, Layering.path_eq, grantAt, if_neg unspent, if_pos rfl]
  rfl

/-- Of a request made at a ledger on the parent it hears what the parent answers, unless the budget
is spent. -/
theorem notice?_allocate_of_bottom (bottom : T.below i = none) (layout : Layout) :
    store.notice? i (.allocate i layout) =
      if (store.ledger i).IsSpent then none
      else (Parent.allocate layout store.parent).1.map (.granted · layout) := by
  by_cases spent : (store.ledger i).IsSpent
  · rw [notice?, Layering.path_eq, grantAt, if_pos spent, if_pos spent]
    rfl
  · rw [notice?_allocate layout spent, bottom, answer_allocate_none, if_neg spent]
    cases (Parent.allocate layout store.parent).1 <;> rfl

/-- Of a return made at the ledger itself it hears in any case. -/
theorem notice?_deallocate (addr : Nat) (layout : Layout) :
    store.notice? i (.deallocate i addr layout) = some (.returned addr layout) := by
  simp only [notice?, Layering.path_eq i, comesBy, decide_true, Bool.true_or, ↓reduceIte]

/-- A request changes a ledger exactly if a block is handed to it, which is then entered. -/
theorem ledger_allocateAlong (layout : Layout) (path : List (Fin T.size)) (apart : path.Nodup)
    (store : Store T π) :
    (allocateAlong layout path store).2.ledger i =
      match grantAt i layout path store with
      | none => store.ledger i
      | some addr => ((store.ledger i).enter addr layout).2 := by
  induction path with
  | nil =>
    simp only [allocateAlong, grantAt]
    split <;> rfl
  | cons j inner ih =>
    obtain ⟨off, apart⟩ := List.nodup_cons.1 apart
    simp only [allocateAlong, grantAt]
    by_cases spent : (store.ledger j).IsSpent
    · simp only [spent, ↓reduceIte, ledger_emit]
    · simp only [spent, ↓reduceIte]
      by_cases here : j = i
      · subst here
        have still := ledger_allocateAlong_of_not_mem layout inner store j off
        rcases asked : allocateAlong layout inner store with ⟨failure | addr, after⟩
        · rw [asked] at still
          simp only [↓reduceIte, Except.toOption, still]
        · rw [asked] at still
          simp only [↓reduceIte, Except.toOption, still]
          split <;> next entered => simp only [ledger_withLedger, ↓reduceIte, entered]
      · have deeper := ih apart
        rcases asked : allocateAlong layout inner store with ⟨failure | addr, after⟩
        · rw [asked] at deeper
          simp only [here, ↓reduceIte, deeper]
        · rw [asked] at deeper
          simp only [here, ↓reduceIte]
          split <;> simp only [ledger_withLedger, here, ↓reduceIte, deeper]

/-- A return changes a ledger exactly if it comes by, and the block is then struck. -/
theorem ledger_deallocateAlong (addr : Nat) (layout : Layout) (path : List (Fin T.size))
    (apart : path.Nodup) (store : Store T π) :
    (deallocateAlong addr layout path store).2.ledger i =
      if comesBy i addr layout path store then ((store.ledger i).strike addr layout).2
      else store.ledger i := by
  induction path generalizing store with
  | nil => rfl
  | cons j inner ih =>
    obtain ⟨off, apart⟩ := List.nodup_cons.1 apart
    rcases struck : (store.ledger j).strike addr layout with ⟨_ | fault, left⟩
    · have deeper := ih apart (store.withLedger j left)
      rw [comesBy_withLedger addr layout off] at deeper
      simp only [deallocateAlong, comesBy, struck, Option.isNone_none, Bool.true_and]
      by_cases here : j = i
      · subst here
        have still := ledger_deallocateAlong_of_not_mem addr layout inner
          (store.withLedger j left) j off
        simp only [still, ledger_withLedger, decide_true, Bool.true_or, ↓reduceIte, struck]
      · simp only [deeper, ledger_withLedger, here, decide_false, Bool.false_or, ↓reduceIte]
    · simp only [deallocateAlong, comesBy, struck, Option.isNone_some, Bool.false_and,
        Bool.or_false, decide_eq_true_eq, ledger_withLedger]
      split
      · next here => subst here; rw [struck]
      · rfl

/-- A call changes what is on record of a block exactly if the ledger hears of the block. -/
theorem live_call (call : Call T) (store : Store T π) (addr : Nat) :
    ((store.call call).2.ledger i).live[addr]? =
      match Notice.last? addr (store.notice? i call).toList with
      | none => (store.ledger i).live[addr]?
      | some notice => notice.recorded := by
  cases call with
  | setBudget j budget => exact congrArg (·[addr]?) (store.live_setBudget j budget i)
  | allocate j layout =>
    have left : (store.call (.allocate j layout)).2 = (store.allocate (some j) layout).2 := by
      simp only [Store.call]
      split <;> next asked => rw [asked]
    have ledger := ledger_allocateAlong (i := i) layout (T.path j) (T.path_nodup j) store
    rw [left, Store.allocate, Handle.path, ledger, notice?]
    cases grantAt i layout (T.path j) store with
    | none => rfl
    | some granted =>
      simp only [Ledger.live_enter, Option.map_some, Option.toList_some, Notice.last?_singleton]
      by_cases concerned : (Notice.granted granted layout).Concerns addr
      · rw [if_pos concerned]
        exact if_pos concerned
      · rw [if_neg concerned]
        exact if_neg concerned
  | deallocate j returned layout =>
    have left : (store.call (.deallocate j returned layout)).2 =
        (store.deallocate (some j) returned layout).2 := by
      simp only [Store.call]
      split <;> next answered => rw [answered]
    have ledger := ledger_deallocateAlong (i := i) returned layout (T.path j) (T.path_nodup j) store
    rw [left, Store.deallocate, Handle.path, ledger, notice?]
    cases comesBy i returned layout (T.path j) store with
    | false => rfl
    | true =>
      simp only [↓reduceIte, Ledger.live_strike, Option.toList_some, Notice.last?_singleton]
      by_cases concerned : (Notice.returned returned layout).Concerns addr
      · rw [if_pos concerned]
        exact if_pos concerned
      · rw [if_neg concerned]
        exact if_neg concerned

/-- Over a run of calls, what is on record of a block is what was heard of it last. -/
theorem live_calls (calls : List (Call T)) (store : Store T π) (addr : Nat) :
    ((Store.calls calls store).2.ledger i).live[addr]? =
      match Notice.last? addr (notices i calls store) with
      | none => (store.ledger i).live[addr]?
      | some notice => notice.recorded := by
  induction calls generalizing store with
  | nil => rfl
  | cons call later ih =>
    have here := live_call (i := i) call store addr
    simp only [Store.calls, notices, Notice.last?_append, ih, here]
    cases Notice.last? addr (notices i later (store.call call).2) <;> rfl

/-- A return that the ledger itself refuses ends in the fault that the ledger finds. -/
theorem call_of_strike_fault {store : Store T π} {addr : Nat} {layout : Layout} {fault : Fault}
    (found : ((store.ledger i).strike addr layout).1 = some fault) :
    (store.call (.deallocate i addr layout)).1 = .error (.fault fault) := by
  rw [Store.call, deallocate_some]
  rcases struck : (store.ledger i).strike addr layout with ⟨_ | _, left⟩
  · rw [struck] at found
    cases found
  · rw [struck] at found
    cases found
    rfl

end Levels

end Store

/-- The books of a ledger are those of a history: what is live, how the next return of a block is
taken, and what the ledger shows of itself. -/
structure Ledger.Reflects (ledger : Ledger) (history : List Notice) : Prop where
  live : ∀ (addr : Nat) (layout : Layout), ledger.live[addr]? = some layout ↔
    Notice.last? addr history = some (.granted addr layout)
  accepts : ∀ addr layout, layout.size ≠ 0 → ((ledger.strike addr layout).1 = none ↔
    Notice.last? addr history = some (.granted addr layout))
  mismatches : ∀ addr layout size, layout.size ≠ 0 →
    ((ledger.strike addr layout).1 = some (.layoutMismatch addr layout.size size) ↔
      ∃ recorded, Notice.last? addr history = some (.granted addr recorded) ∧
        recorded ≠ layout ∧ recorded.size = size)
  misses : ∀ addr layout, layout.size ≠ 0 →
    ((ledger.strike addr layout).1 = some (.notLive addr) ↔
      ∀ recorded, Notice.last? addr history ≠ some (.granted addr recorded))
  isLive : ∀ addr, ledger.isLive addr = true ↔
    ∃ layout, Notice.last? addr history = some (.granted addr layout)
  ascending : ledger.snapshot.Pairwise fun first second => first.1 < second.1
  length_snapshot : ledger.snapshot.length = ledger.liveCount
  mem_snapshot : ∀ addr size, (addr, size) ∈ ledger.snapshot ↔
    ∃ layout, Notice.last? addr history = some (.granted addr layout) ∧ layout.size = size
  positive : ∀ entry ∈ ledger.snapshot, entry.2 ≠ 0

namespace Ledger

variable {ledger : Ledger}

theorem snapshot_ascending (ledger : Ledger) :
    ledger.snapshot.Pairwise fun first second => first.1 < second.1 := by
  rw [snapshot, List.pairwise_map]
  exact Std.ExtTreeMap.ordered_keys_toList.imp fun before => Nat.compare_eq_lt.1 before

theorem length_snapshot (ledger : Ledger) : ledger.snapshot.length = ledger.liveCount := by
  rw [snapshot, List.length_map, Std.ExtTreeMap.length_toList, liveCount]

theorem mem_snapshot {addr size : Nat} : (addr, size) ∈ ledger.snapshot ↔
    ∃ layout, ledger.live[addr]? = some layout ∧ layout.size = size := by
  simp only [snapshot, List.mem_map, Prod.exists, Prod.mk.injEq]
  constructor
  · rintro ⟨found, layout, member, rfl, rfl⟩
    exact ⟨layout, Std.ExtTreeMap.mem_toList_iff_getElem?_eq_some.1 member, rfl⟩
  · rintro ⟨layout, recorded, rfl⟩
    exact ⟨addr, layout, Std.ExtTreeMap.mem_toList_iff_getElem?_eq_some.2 recorded, rfl, rfl⟩

/-- All that a ledger shows of its books follows from which blocks are live. -/
theorem Reflects.of_live {history : List Notice}
    (live : ∀ (addr : Nat) (layout : Layout), ledger.live[addr]? = some layout ↔
      Notice.last? addr history = some (.granted addr layout)) : ledger.Reflects history where
  live := live
  accepts addr layout positive := by
    rw [strike_accepted_iff, ← live]
    exact or_iff_right positive
  mismatches addr layout size positive := by
    simp only [← live, strike, positive, ↓reduceIte]
    cases ledger.live[addr]? with
    | none => simp only [Option.some.injEq, reduceCtorEq, false_and, exists_false]
    | some recorded =>
      by_cases same : recorded = layout
      · subst same
        simp only [↓reduceIte, reduceCtorEq, Option.some.injEq, ne_eq, exists_eq_left',
          not_true_eq_false, false_and]
      · simp only [same, ↓reduceIte, Option.some.injEq, Fault.layoutMismatch.injEq, true_and,
          ne_eq, exists_eq_left', not_false_eq_true]
  misses addr layout positive := by
    simp only [← live, strike, positive, ↓reduceIte, ne_eq]
    cases ledger.live[addr]? with
    | none => simp only [reduceCtorEq, not_false_eq_true, implies_true]
    | some recorded =>
      by_cases same : recorded = layout <;>
        simp only [same, ↓reduceIte, reduceCtorEq, Option.some.injEq, forall_eq']
  isLive addr := by simp only [isLive_iff, live]
  ascending := ledger.snapshot_ascending
  length_snapshot := ledger.length_snapshot
  mem_snapshot addr size := by simp only [Ledger.mem_snapshot, live]
  positive entry member := by
    obtain ⟨layout, recorded, same⟩ := Ledger.mem_snapshot.1 member
    have concerned := Notice.concerns_of_last? ((live entry.1 layout).1 recorded)
    rw [← same]
    exact concerned.2

end Ledger

/-- Whatever the parent answers and whatever is asked of the ledgers, the books of each of them are
those of its history. A return that the ledger refuses ends in the fault that it finds; any other is
handed on to the level below. The history goes on with every return that is asked of the ledger and,
where the ledger stands on the parent, with every block that the parent grants it. -/
theorem ledger_reflects_notices {T : Layering} {π : Type} [Parent π]
    (budgets : Fin T.size → Option Nat) (parent : π) (calls : List (Call T)) (i : Fin T.size) :
    let start : Store T π := .opened budgets parent
    let after := (Store.calls calls start).2
    (after.ledger i).Reflects (Store.notices i calls start) ∧
      (∀ addr layout, match (after.ledger i).strike addr layout with
        | (some fault, _) => (after.call (.deallocate i addr layout)).1 = .error (.fault fault)
        | (none, struck) => after.deallocate (some i) addr layout =
            (after.withLedger i struck).deallocate (T.below i) addr layout) ∧
      (∀ addr layout, after.notice? i (.deallocate i addr layout) = some (.returned addr layout)) ∧
      (T.below i = none → ∀ layout, after.notice? i (.allocate i layout) =
        if (after.ledger i).IsSpent then none
        else (Parent.allocate layout after.parent).1.map (.granted · layout)) := by
  intro start after
  refine ⟨.of_live fun addr layout => ?_, fun addr layout => ?_, Store.notice?_deallocate,
    Store.notice?_allocate_of_bottom⟩
  · have recorded := Store.live_calls (i := i) calls start addr
    rw [Notice.last?_eq_granted_iff, recorded]
    cases Notice.last? addr (Store.notices i calls start) with
    | none => simp only [start, Store.ledger_opened, Ledger.opened,
        Std.ExtTreeMap.getElem?_empty, Option.bind_none]
    | some notice => simp only [Option.bind_some]
  · rcases struck : (after.ledger i).strike addr layout with ⟨_ | fault, left⟩
    · exact (Store.deallocate_some addr layout after i).trans (by rw [struck])
    · exact Store.call_of_strike_fault (congrArg Prod.fst struck)

/-- A parent that gives its answers one after the other as they are listed, whatever it is asked,
and refuses once there are no more. -/
structure Script where
  answers : List (Option Nat)
deriving DecidableEq

instance : Parent Script where
  Setting := List (Option Nat)
  configure answers _ := ⟨answers⟩
  allocate _ script := (script.answers.head?.join, ⟨script.answers.tail⟩)
  deallocate _ _ script := script
  handleSize := 0

/-- The parent hands out one block twice, with a refusal in between. The second time the ledger finds
the fault, and has put the new layout on record by then. -/
theorem ledger_reflects_notices_single :
    let i : Fin Layering.single.size := (0 : Fin 1)
    let calls : List (Call .single) := [.allocate i ⟨24, 8⟩, .allocate i ⟨24, 8⟩,
      .allocate i ⟨16, 8⟩]
    let start : Store .single Script := .opened (fun _ => none) ⟨[some 4096, none, some 4096]⟩
    let history : List Notice := [.granted 4096 ⟨24, 8⟩, .granted 4096 ⟨16, 8⟩]
    (Store.calls calls start).1 =
      [.ok (some 4096), .error .refused, .error (.fault (.liveBlockReturned 4096))] ∧
    Layering.single.below i = none ∧ ((Store.calls calls start).2.ledger i).Reflects history := by
  intro i calls start history
  have heard : Store.notices i calls start = history := by decide +kernel
  have reflects := (ledger_reflects_notices (fun _ => none)
    (⟨[some 4096, none, some 4096]⟩ : Script) calls i).1
  rw [heard] at reflects
  exact ⟨by decide +kernel, rfl, reflects⟩

end ChainLedger
