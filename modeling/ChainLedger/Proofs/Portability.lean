import ChainLedger.Proofs.Closing
import Mathlib.Data.List.MinMax

/-
Portability: lists behave the same over every allocator. A program run over a parent itself and the
same program run over a ledger, which may stand on others, have the same replies, the same lists and
the same events, up to addresses, record layouts and the ledger's own note of a refusal, and they
give up the same lists at their end. The first parent is to grant as many requests as the budgets on
the ledger's path allow (`Parent.Lasts`), the one below the ledger is not to run out by itself.
-/

set_option autoImplicit false

namespace ChainLedger

variable {T : Layering} {π π' : Type}

section Budgets

variable {path : List (Fin T.size)} {store after : Store T π}

/-- How many requests the budgets on a path allow; `none` if none of them sets a limit. -/
def Store.allowance (path : List (Fin T.size)) (store : Store T π) : Option Nat :=
  (path.filterMap fun i => (store.ledger i).budget).min?

theorem Store.allowance_congr
    (same : ∀ i ∈ path, (after.ledger i).budget = (store.ledger i).budget) :
    after.allowance path = store.allowance path := by
  rw [allowance, List.filterMap_congr same, allowance]

theorem Store.allowance_eq_zero :
    store.allowance path = some 0 ↔ ∃ i ∈ path, (store.ledger i).IsSpent := by
  simp only [allowance, List.min?_eq_some_iff, List.mem_filterMap, Ledger.IsSpent,
    Nat.zero_le, implies_true, and_true]

/-- What every budget on the path loses the allowance loses. -/
theorem Store.allowance_pred (spent : ∀ i ∈ path,
    (after.ledger i).budget = (store.ledger i).budget.map (· - 1)) :
    after.allowance path = (store.allowance path).map (· - 1) := by
  rw [allowance, List.filterMap_congr spent, ← List.map_filterMap, allowance]
  cases least : (path.filterMap fun i => (store.ledger i).budget).min? with
  | none =>
    rw [List.min?_eq_none_iff] at least
    rw [least]
    rfl
  | some budget =>
    obtain ⟨member, below⟩ := List.min?_eq_some_iff.1 least
    refine List.min?_eq_some_iff.2 ⟨List.mem_map_of_mem member, fun other found => ?_⟩
    obtain ⟨given, there, rfl⟩ := List.mem_map.1 found
    exact Nat.sub_le_sub_right (below given there) 1

end Budgets

section Limits

variable [Parent π] {layout : Layout} {limit : Option Nat} {bottom after : π}

namespace Parent

def Request.isAllocate : Request → Bool
  | .allocate _ => true
  | .deallocate .. => false

/-- A request for a block of this layout, or the return of one. -/
def Request.Concerns (layout : Layout) : Request → Prop
  | .allocate wanted => wanted = layout
  | .deallocate _ held => held = layout

/-- Whatever is asked of a parent from now on about blocks of this layout, so many of the requests
are granted, and all of them if there is no limit. As this is so of the first few requests too,
those beyond the limit are the ones that are refused. -/
def Lasts (layout : Layout) (limit : Option Nat) (bottom : π) : Prop :=
  ∀ requests : List Request, (∀ request ∈ requests, request.Concerns layout) →
    (grants requests bottom).length =
      limit.elim (requests.countP Request.isAllocate) (min (requests.countP Request.isAllocate))

/-- A parent that lasts refuses exactly what is beyond its limit. -/
theorem Lasts.refuses_iff (lasts : Lasts layout limit bottom) (positive : layout.size ≠ 0) :
    (Parent.allocate layout bottom).1 = none ↔ limit = some 0 := by
  have one := lasts [.allocate layout] (List.forall_mem_singleton.2 rfl)
  rw [List.countP_cons_of_pos rfl, List.countP_nil, Nat.zero_add] at one
  rcases asked : Parent.allocate layout bottom with ⟨_ | addr, after⟩
  · simp only [grants, asked, List.length_nil] at one
    cases limit with
    | none => cases one
    | some limit =>
      rw [Option.elim_some] at one
      simp only [Option.some.injEq, true_iff]
      omega
  · simp only [grants, asked, positive, ↓reduceIte, List.length_singleton] at one
    cases limit with
    | none => simp only [reduceCtorEq]
    | some limit =>
      rw [Option.elim_some] at one
      simp only [reduceCtorEq, Option.some.injEq, false_iff]
      omega

theorem Lasts.granted (lasts : Lasts layout limit bottom) (positive : layout.size ≠ 0) {addr : Nat}
    (granted : Parent.allocate layout bottom = (some addr, after)) :
    Lasts layout (limit.map (· - 1)) after := by
  intro requests concern
  have whole := lasts (.allocate layout :: requests) (List.forall_mem_cons.2 ⟨rfl, concern⟩)
  have left : limit ≠ some 0 := fun spent => by
    cases granted ▸ (lasts.refuses_iff positive).2 spent
  rw [List.countP_cons_of_pos rfl] at whole
  simp only [grants, granted, positive, ↓reduceIte, List.length_cons] at whole
  cases limit with
  | none => exact Nat.succ.inj whole
  | some limit =>
    rw [ne_eq, Option.some.injEq] at left
    rw [Option.elim_some] at whole
    rw [Option.map_some, Option.elim_some]
    omega

/-- What refuses once refuses for good. -/
theorem Lasts.refused (lasts : Lasts layout limit bottom) (positive : layout.size ≠ 0)
    (refused : Parent.allocate layout bottom = (none, after)) : Lasts layout limit after := by
  obtain rfl := (lasts.refuses_iff positive).1 (congrArg Prod.fst refused)
  intro requests concern
  have whole := lasts (.allocate layout :: requests) (List.forall_mem_cons.2 ⟨rfl, concern⟩)
  simp only [grants, refused, Option.elim_some, Nat.min_zero] at whole ⊢
  exact whole

theorem Lasts.returned (lasts : Lasts layout limit bottom) (addr : Nat) :
    Lasts layout limit (Parent.deallocate addr layout bottom) := fun requests concern =>
  lasts (.deallocate addr layout :: requests) (List.forall_mem_cons.2 ⟨rfl, concern⟩)

end Parent

theorem Heap.lasts (positive : layout.size ≠ 0) (heap : Heap) :
    Parent.Lasts layout heap.remaining heap := by
  intro requests concern
  induction requests generalizing heap with
  | nil => cases heap.remaining <;> simp [Parent.grants]
  | cons request requests ih =>
    obtain ⟨here, behind⟩ := List.forall_mem_cons.1 concern
    cases request with
    | deallocate addr held => exact ih heap behind
    | allocate wanted =>
      obtain rfl : wanted = layout := here
      rw [List.countP_cons_of_pos rfl]
      by_cases spent : heap.remaining = some 0
      · have refused : Parent.allocate wanted heap = (none, heap) := Heap.allocate_of_spent spent
        have later := ih heap behind
        simp only [Parent.grants, refused, spent, Option.elim_some, Nat.min_zero] at later ⊢
        exact later
      · have granted : Parent.allocate wanted heap = _ := Heap.allocate_of_left spent
        have later := ih ⟨roundUp heap.next wanted.align + wanted.size,
          heap.remaining.map (· - 1)⟩ behind
        simp only [Parent.grants, granted, positive, ↓reduceIte, List.length_cons, later]
        cases limit : heap.remaining with
        | none => rfl
        | some limit =>
          rw [limit, Option.some.injEq] at spent
          rw [Option.map_some, Option.elim_some, Option.elim_some]
          omega

end Limits

/-- What a bare system has at `addr` the ledger `i` has where this says. -/
def Relabelling.ontoLedger (i : Fin T.size) (addr : Nat → Nat) : Relabelling .bare T :=
  ⟨addr, fun _ => some i, fun _ => ⟨24, 8⟩⟩

variable [Parent π]

/-- The parent of a bare system grants as many more requests as the budgets of a ledger elsewhere
allow, and apart from refusals both have written down the same. Every address that has been granted
is met once. -/
structure Store.Ported (i : Fin T.size) (met : Nat → Nat → Prop) (store : Store .bare π)
    (store' : Store T π') : Prop where
  events : ∀ addr, Comparison.Renames met addr →
    store'.trace.filter (fun event => !event.isRefusal) =
      store.trace.map (Relabelling.ontoLedger i addr).event
  lasts : Parent.Lasts (recordLayout π (none : Handle .bare)) (store'.allowance (T.path i))
    store.parent
  fresh : Parent.NeverReuses store.parent
  spent : ∀ first second, met first second → Parent.Spent first store.parent
  once : ∀ first second other, met first second → met first other → second = other

section Requests

variable {i : Fin T.size} {met : Nat → Nat → Prop} {store : Store .bare π} {store' : Store T π'}
  {bottom : π}

theorem Node.parent_free_bare (node : Node .bare) : (node.free store).2.parent =
    Parent.deallocate node.addr (recordLayout π (none : Handle .bare)) store.parent := by
  obtain ⟨addr, value, _ | i⟩ := node
  · rfl
  · exact i.elim0

namespace Store.Ported

/-- Addresses that are met once can be renamed. -/
theorem exists_renames (ported : store.Ported i met store') :
    ∃ addr, Comparison.Renames met addr := by
  have each : ∀ first, ∃ named, ∀ second, met first second → named = second := by
    intro first
    by_cases pair : ∃ second, met first second
    · obtain ⟨named, pair⟩ := pair
      exact ⟨named, fun second => ported.once first named second pair⟩
    · exact ⟨first, fun second here => absurd ⟨second, here⟩ pair⟩
  choose addr renames using each
  exact ⟨addr, renames⟩

theorem emit (ported : store.Ported i met store') {event event' : Event}
    (kept : event'.isRefusal = false) (same : ∀ addr, Comparison.Renames met addr →
      event' = (Relabelling.ontoLedger i addr).event event) :
    (store.emit event).Ported i met (store'.emit event') :=
  { ported with
    events := fun addr renames => by
      rw [Store.emit, Store.emit, List.filter_cons_of_pos (by rw [kept]; rfl), List.map_cons,
        ported.events addr renames, same addr renames] }

variable [Parent π']

/-- What the parent turns down a budget turns down. -/
theorem refuse (ported : store.Ported i met store') (refused : Parent.allocate
      (recordLayout π (none : Handle .bare)) store.parent = (none, bottom)) (layout : Layout) :
    ∃ after', store'.allocate (some i) layout = (.error .refused, after') ∧
      ({ store with parent := bottom } : Store .bare π).Ported i met after' := by
  obtain ⟨aligned, positive⟩ := recordLayout_proper (π := π) (none : Handle .bare)
  have spent : ∃ j ∈ T.path i, (store'.ledger j).IsSpent := Store.allowance_eq_zero.1
    ((ported.lasts.refuses_iff positive).1 (congrArg Prod.fst refused))
  exact ⟨_, Store.allocateAlong_of_spent spent, ported.events,
    ported.lasts.refused positive refused, ported.fresh.allocate aligned refused,
    fun first second pair => (ported.spent first second pair).allocate aligned refused,
    ported.once⟩

/-- A request that both sides grant adds a pair to the addresses met. -/
theorem grant (ported : store.Ported i met store') {addr addr' : Nat} {after' : Store T π'}
    (granted : Parent.allocate (recordLayout π (none : Handle .bare)) store.parent =
      (some addr, bottom))
    (granted' : store'.allocate (some i) ⟨24, 8⟩ = (.ok addr', after')) :
    ({ store with parent := bottom } : Store .bare π).Ported i
      (fun first second => met first second ∨ first = addr ∧ second = addr') after' := by
  obtain ⟨aligned, positive⟩ := recordLayout_proper (π := π) (none : Handle .bare)
  obtain ⟨-, trace, -, ledgers⟩ := Store.allocateAlong_ok (Handle.path_nodup _) granted'
  have apart : ∀ first second, met first second → first ≠ addr := fun first second pair =>
    ((ported.spent first second pair).ne_of_granted aligned positive granted).symm
  refine ⟨fun addr renames => ?_, ?_, ported.fresh.allocate aligned granted, ?_, ?_⟩
  · rw [trace]
    exact ported.events addr fun first second pair => renames first second (Or.inl pair)
  · have lost : after'.allowance (T.path i) = (store'.allowance (T.path i)).map (· - 1) := by
      refine Store.allowance_pred fun j on => ?_
      rw [ledgers, if_pos (show j ∈ Handle.path (some i) from on), Ledger.budget_enter]
    rw [lost]
    exact ported.lasts.granted positive granted
  · rintro first second (pair | ⟨rfl, rfl⟩)
    · exact (ported.spent first second pair).allocate aligned granted
    · exact ported.fresh.spent aligned positive granted
  · rintro first second other (pair | ⟨rfl, rfl⟩) (pair' | ⟨same, rfl⟩)
    · exact ported.once first second other pair pair'
    · exact absurd same (apart first second pair)
    · exact absurd rfl (apart _ other pair')
    · rfl

theorem free (ported : store.Ported i met store') {node : Node .bare} {node' : Node T}
    (pair : met node.addr node'.addr) (value : node'.value = node.value) :
    (node.free store).2.Ported i met (node'.free store').2 where
  events addr renames := by
    rw [Node.trace_free, Node.trace_free, List.filter_cons_of_pos rfl, List.map_cons,
      ported.events addr renames, value, Relabelling.event, ← renames _ _ pair]
    rfl
  lasts := by
    rw [node.parent_free_bare, Store.allowance_congr fun j _ => node'.budget_free store' j]
    exact ported.lasts.returned node.addr
  fresh := by
    rw [node.parent_free_bare]
    exact ported.fresh.deallocate _ _
  spent first second met := by
    rw [node.parent_free_bare]
    exact (ported.spent first second met).deallocate _ _
  once := ported.once

end Store.Ported

end Requests

namespace Comparison

/-- A bare system on the one hand and a ledger on the other. -/
def ontoLedger (π π' : Type) [Parent π] (i : Fin T.size) : Comparison .bare T π π' where
  owner _ := some i
  layout _ := ⟨24, 8⟩
  Allowed _ := True
  Stores := Store.Ported i

variable [Parent π'] {i : Fin T.size}

theorem preserved_ontoLedger : (ontoLedger π π' i).Preserved where
  renames ported := ported.exists_renames
  layout_record _ := rfl
  allocate := by
    rintro met store store' (_ | none) ported - fair
    · replace fair : Fair store' _ (store'.allocate (some i) ⟨24, 8⟩) := fair
      show Requests _ met _ (store'.allocate (some i) ⟨24, 8⟩)
      have positive := (recordLayout_proper (π := π) (none : Handle .bare)).2
      rw [Store.allocate_none] at fair ⊢
      rcases asked : Parent.allocate (recordLayout π none) store.parent with ⟨_ | addr, bottom⟩
      · obtain ⟨after', refused, ported⟩ := ported.refuse asked ⟨24, 8⟩
        rw [refused]
        exact .refused ported
      · have unspent : ∀ j ∈ T.path i, ¬ (store'.ledger j).IsSpent := by
          intro j on spent
          cases asked ▸ (ported.lasts.refuses_iff positive).2
            (Store.allowance_eq_zero.2 ⟨j, on, spent⟩)
        rcases Store.allocateAlong_of_unspent unspent fair.quiet' with
          ⟨addr', after', granted'⟩ | ⟨after', refused, -, trace⟩
        · have ported := ported.grant asked granted'
          rw [show store'.allocate (some i) ⟨24, 8⟩ = (.ok addr', after') from granted']
          exact .granted (fun _ _ => Or.inl) (Or.inr ⟨rfl, rfl⟩) fun value =>
            ported.emit rfl fun addr renames =>
              congrArg (Event.nodeAllocated value) (renames _ _ (Or.inr ⟨rfl, rfl⟩)).symm
        · -- A refusal by the parent alone leaves no note behind.
          have refusing := fair.supplied .refused (congrArg Prod.fst refused)
          rw [show store'.allocate (some i) ⟨24, 8⟩ = (.error .refused, after') from refused,
            Store.refusing_congr trace] at refusing
          exact absurd refusing fair.unrefused
    · exact none.elim0
  free := fun ported nodes _ _ => Store.Ported.free ported nodes.addr nodes.value
  abandon := fun built total ported => Store.Ported.emit ported rfl fun _ _ => rfl
  clear := fun ported => { ported with events := fun _ _ => rfl }

end Comparison

section Runs

theorem Comparison.sessions_ontoLedger {budgets : Fin T.size → Option Nat} {bottom : π}
    {parent : π'} {i : Fin T.size} (fresh : Parent.NeverReuses bottom)
    (lasts : Parent.Lasts (recordLayout π (none : Handle .bare))
      ((T.path i).filterMap budgets).min? bottom) :
    (ontoLedger π π' i).Sessions (fun _ => True) (fun _ _ => False)
      (.opened (.opened (fun _ => none) bottom)) (.opened (.opened budgets parent)) where
  stores := {
    events := fun _ _ => rfl
    lasts := by
      rw [Store.allowance]
      simp only [Session.opened, Store.ledger_opened]
      exact lasts
    fresh := fresh
    spent := fun _ _ pair => pair.elim
    once := fun _ _ _ pair => pair.elim }
  directories _ _ := .none

/-- A step of a bare system and the same step over a ledger: the same reply, the same events but for
refusals, and the same list under every name as long as the run goes on. -/
structure Echoes (i : Fin T.size) (addr : Nat → Nat) (first : Reply .bare × Machine .bare π)
    (second : Reply T × Machine T π') : Prop where
  reply : second.1 = (Relabelling.ontoLedger i addr).reply first.1
  events : second.2.store.events.filter (fun event => !event.isRefusal) =
    first.2.store.events.map (Relabelling.ontoLedger i addr).event
  view : first.1.isAbort = false → ∀ name, second.2.view name =
    (first.2.view name).map (Option.map (Relabelling.ontoLedger i addr).register)

theorem Echoes.of_matching {i : Fin T.size} {met : Nat → Nat → Prop} {addr : Nat → Nat}
    (renames : Comparison.Renames met addr) {expected : Reply .bare × Session .bare π}
    {expected' : Reply T × Session T π'} {result : Reply .bare × Machine .bare π}
    {result' : Reply T × Machine T π'} (matched : Matches expected result)
    (matching : (Comparison.ontoLedger π π' i).Matching (fun _ => True) met expected expected')
    (matched' : Matches expected' result') : Echoes i addr result result' := by
  obtain ⟨now, before, sessions, replies⟩ := matching
  have renames := renames.mono before
  have reply : result'.1 = (Relabelling.ontoLedger i addr).reply result.1 := by
    rw [matched.reply, matched'.reply, replies addr renames]
    rfl
  refine ⟨reply, ?_, fun survived name => ?_⟩
  · rw [matched.store, matched'.store, Store.events, Store.events, List.filter_reverse,
      List.map_reverse, sessions.stores.events addr renames]
  · rw [matched.reply] at survived
    have survived' : expected'.1.isAbort = false := by
      rw [replies addr renames, Relabelling.isAbort_reply, survived]
    rw [(matched.represents survived).view_eq, (matched'.represents survived').view_eq,
      sessions.lists_eq renames trivial]
    rfl

/-- A list that is given up at the end over a bare system and over a ledger. -/
structure EchoesAtEnd (i : Fin T.size) (addr : Nat → Nat) (first : Closing .bare π)
    (second : Closing T π') : Prop where
  name : second.name = first.name
  kind : second.kind = first.kind
  values : second.values = first.values
  quiet : first.fault = none
  quiet' : second.fault = none
  events : second.events.filter (fun event => !event.isRefusal) =
    first.events.map (Relabelling.ontoLedger i addr).event

theorem EchoesAtEnd.of_closings {i : Fin T.size} {met : Nat → Nat → Prop} {addr : Nat → Nat}
    (renames : Comparison.Renames met addr) {first : Closing .bare π} {second : Closing T π'}
    (closings : (Comparison.ontoLedger π π' i).Closings met first second) :
    EchoesAtEnd i addr first second := by
  obtain ⟨name, kind, values, quiet, quiet', store, store', stores, events, events'⟩ := closings
  refine ⟨name, kind, values, quiet, quiet', ?_⟩
  rw [events, events', Store.events, Store.events, List.filter_reverse, List.map_reverse,
    stores.events addr renames]

theorem EchoesAtEnd.forall₂ {i : Fin T.size} {met : Nat → Nat → Prop} {addr : Nat → Nat}
    (renames : Comparison.Renames met addr) {first : Option (List (Closing .bare π))}
    {second : Option (List (Closing T π'))}
    (closings : Option.Rel (List.Forall₂ ((Comparison.ontoLedger π π' i).Closings met))
      first second) :
    Option.Rel (List.Forall₂ (EchoesAtEnd i addr)) first second := by
  cases closings with
  | none => exact .none
  | some closings => exact .some (closings.imp fun _ _ => of_closings renames)

variable [Parent π']

/-- What is asked of a bare system, asked of a ledger. -/
def Op.onto (i : Fin T.size) (request : Except Problem (Op .bare π)) :
    Except Problem (Op T π') :=
  request.bind (Op.recast fun _ => some i)

/-- Everything that can be asked of a bare system can be asked of a ledger, unless the parent itself
is to be changed. -/
theorem Comparison.serves_onto (i : Fin T.size) {request : Except Problem (Op .bare π)}
    (listed : ∀ op, request = .ok op → ¬ op.IsDirect) :
    (ontoLedger π π' i).Serves (fun _ => True) request (Op.onto i request) := by
  cases request with
  | error problem => exact .problem
  | ok op =>
    have meant : ∃ op', op.recast (fun _ => some i) = .ok (op' : Op T π') := by
      cases op with
      | configure setting => exact absurd trivial (listed _ rfl)
      | setBudget i | ledger i | renderLedger i | isLive i | allocate i | deallocate i
        | exchange i => exact i.elim0
      | _ => exact ⟨_, rfl⟩
    obtain ⟨op', meant⟩ := meant
    rw [show Op.onto i (.ok op) = .ok op' from meant]
    exact .op meant (fun _ _ => trivial) fun _ _ => trivial

/-- Lists behave the same over every allocator: over one that grants as many requests as the budgets
on a ledger's path allow, and over that ledger, unless the parent below it runs out by itself. -/
theorem Machine.echoes_trail (budgets : Fin T.size → Option Nat) {bottom : π} {parent : π'}
    (fresh : Parent.NeverReuses bottom) (fresh' : Parent.NeverReuses parent) (i : Fin T.size)
    (lasts : Parent.Lasts (recordLayout π (none : Handle .bare))
      ((T.path i).filterMap budgets).min? bottom)
    (requests : List (Except Problem (Op .bare π)))
    (listed : ∀ op, .ok op ∈ requests → ¬ op.IsDirect) :
    ∃ results results' report report',
      (opened (.opened (fun _ => none) bottom)).trail requests = .ok results ∧
      (opened (.opened budgets parent)).trail (requests.map (Op.onto i)) = .ok results' ∧
      (opened (.opened (fun _ => none) bottom)).run requests = .ok report ∧
      (opened (.opened budgets parent)).run (requests.map (Op.onto i)) = .ok report' ∧
      ((∀ result ∈ results', ¬ RanOut result.1 result.2.store) →
        ∃ addr, List.Forall₂ (Echoes i addr) results results' ∧
          Option.Rel (List.Forall₂ (EchoesAtEnd i addr)) report.closings report'.closings) := by
  have serves : List.Forall₂ ((Comparison.ontoLedger π π' i).Serves fun _ => True) requests
      (requests.map (Op.onto i)) := by
    rw [List.forall₂_map_right_iff, List.forall₂_same]
    exact fun request there => Comparison.serves_onto i fun op found => listed op (found ▸ there)
  have listed' : ∀ op : Op T π', .ok op ∈ requests.map (Op.onto i) → ¬ op.IsDirect := by
    intro op member
    obtain ⟨request, there, same⟩ := List.mem_map.1 member
    have serves :
        (Comparison.ontoLedger π π' i).Serves (fun _ => True) request (Op.onto i request) :=
      Comparison.serves_onto i fun op found => listed op (found ▸ there)
    exact serves.listed.2 op same
  obtain ⟨results, went, matched⟩ := exists_trail (T := .bare) (fun _ => none) fresh listed
  obtain ⟨results', went', matched'⟩ := exists_trail budgets fresh' listed'
  refine ⟨results, results', _, _, went, went', run_eq _ fresh listed,
    run_eq budgets fresh' listed', fun supplied => ?_⟩
  obtain ⟨met, -, ⟨store, store', ported⟩, trails, closings⟩ :=
    Comparison.preserved_ontoLedger.runs serves (Comparison.sessions_ontoLedger fresh lasts)
      (Sound.opened fresh _) (Sound.opened fresh' budgets)
      (Matches.forall_left (fun reply store => ¬ RanOut reply store) matched' supplied)
  obtain ⟨addr, renames⟩ := ported.exists_renames
  exact ⟨addr, Matches.forall₂ (Echoes.of_matching renames) matched trails matched',
    EchoesAtEnd.forall₂ renames closings⟩

/-- A ledger on another one whose budget is five: nodes are linked, cut off and released, the sixth
request is turned down, and a seventh that insists ends both runs. -/
theorem Machine.echoes_trail_fork :
    let requests : List (Except Problem (Op .bare Heap)) := [
      .ok (.chain "front" .attempt none [1, 2, 3]), .ok (.pushFront "front" .insist 4),
      .ok (.link "front" 0 none (some "cut")), .error .badInput,
      .ok (.release "cut" (some "rest")), .ok (.node "one" .attempt none 5),
      .ok (.chain "late" .attempt none [6, 7]), .ok (.walk "rest" [.value, .advance, .release]),
      .ok (.values "front"), .ok (.node "last" .insist none 8)]
    let budgets : Fin 3 → Option Nat := fun i => if i = 0 then some 5 else none
    let start : Machine .bare Heap := opened (.opened (fun _ => none) ⟨4096, some 5⟩)
    let start' : Machine .fork Arena := opened (.opened budgets (.ofCapacity 200))
    ∃ results results' report report', start.trail requests = .ok results ∧
      start'.trail (requests.map (Op.onto (1 : Fin 3))) = .ok results' ∧
      start.run requests = .ok report ∧
      start'.run (requests.map (Op.onto (1 : Fin 3))) = .ok report' ∧
      ∃ addr, List.Forall₂ (Echoes (T := .fork) (1 : Fin 3) addr) results results' ∧
        Option.Rel (List.Forall₂ (EchoesAtEnd (T := .fork) (1 : Fin 3) addr)) report.closings
          report'.closings := by
  intro requests budgets start start'
  have lasting : start'.trailAll (fun reply store => ¬ RanOut reply store)
      (requests.map (Op.onto (1 : Fin 3))) = true := by
    decide +kernel
  obtain ⟨given, ran, supplied⟩ := exists_of_trailAll lasting
  have limit : ((Layering.fork.path (1 : Fin 3)).filterMap budgets).min? = some 5 := by
    decide +kernel
  have lasts : Parent.Lasts (recordLayout Heap (none : Handle .bare))
      ((Layering.fork.path (1 : Fin 3)).filterMap budgets).min? (⟨4096, some 5⟩ : Heap) := by
    rw [limit]
    exact Heap.lasts (recordLayout_proper (none : Handle .bare)).2 _
  obtain ⟨results, results', report, report', went, went', ended, ended', echoes⟩ :=
    echoes_trail (T := .fork) budgets (Heap.neverReuses ⟨4096, some 5⟩)
      (Arena.neverReuses (.ofCapacity 200)) (1 : Fin 3) lasts requests
      (by simp [requests, Op.IsDirect])
  obtain rfl := Except.ok.inj (ran.symm.trans went')
  exact ⟨results, given, report, report', went, went', ended, ended', echoes supplied⟩

end Runs

end ChainLedger
