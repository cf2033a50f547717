import ChainLedger.Proofs.Passage

/-
Returns in another order. A list of returns is accepted throughout exactly if every entry that one
of them strikes is on record beforehand with the layout that is named, and no entry is struck twice
(`Store.accepts_iff`); nested ledgers share entries, so two returns made at different ledgers may
well meet in one below both. Neither condition speaks of an order, and what the books hold in the
end does not either. Main statement: returns that are accepted in one order are accepted in every
order, with the same books in the end (`Store.calls_perm`).
-/

set_option autoImplicit false

namespace ChainLedger

/-- The return of a block at one of the ledgers. -/
structure Return (T : Layering) where
  ledger : Fin T.size
  addr : Nat
  layout : Layout

namespace Return

variable {T : Layering} {π : Type} {before after : Store T π} {first second : Return T}

def call (back : Return T) : Call T :=
  .deallocate back.ledger back.addr back.layout

/-- A return strikes the entry of its block in every ledger it passes, unless the block has no
bytes and therefore no entry. -/
def Strikes (back : Return T) (i : Fin T.size) (addr : Nat) : Prop :=
  i ∈ T.path back.ledger ∧ back.addr = addr ∧ back.layout.size ≠ 0

instance (back : Return T) (i : Fin T.size) (addr : Nat) : Decidable (back.Strikes i addr) :=
  inferInstanceAs (Decidable (_ ∧ _ ∧ _))

/-- What a return strikes is on record with the layout that it names. -/
def Held (back : Return T) (store : Store T π) : Prop :=
  ∀ i addr, back.Strikes i addr → (store.ledger i).live[addr]? = some back.layout

/-- Two returns strike no entry both. -/
def Apart (first second : Return T) : Prop :=
  ∀ i addr, first.Strikes i addr → ¬ second.Strikes i addr

theorem Apart.symm (apart : first.Apart second) : second.Apart first :=
  fun i addr struck again => apart i addr again struck

end Return

/-- What is left in the books by returns that have been accepted. -/
structure Store.Clears {T : Layering} {π : Type} (returns : List (Return T))
    (before after : Store T π) : Prop where
  live : ∀ i (addr : Nat), (after.ledger i).live[addr]? =
    if ∃ back ∈ returns, back.Strikes i addr then none else (before.ledger i).live[addr]?
  releases : ∀ i, (after.ledger i).releases =
    (before.ledger i).releases + returns.countP fun back => i ∈ T.path back.ledger
  allocations : ∀ i, (after.ledger i).allocations = (before.ledger i).allocations
  budget : ∀ i, (after.ledger i).budget = (before.ledger i).budget

namespace Store

variable {T : Layering} {π : Type} {before between after other store : Store T π}
  {back : Return T} {returns reordered : List (Return T)}

theorem Clears.nil (store : Store T π) : Clears [] store store where
  live i addr := by simp only [List.not_mem_nil, false_and, exists_false, ↓reduceIte]
  releases _ := rfl
  allocations _ := rfl
  budget _ := rfl

theorem Clears.cons (first : Clears [back] before between) (rest : Clears returns between after) :
    Clears (back :: returns) before after where
  live i addr := by
    rw [rest.live, first.live]
    by_cases later : ∃ back ∈ returns, back.Strikes i addr
    · simp only [List.mem_cons, or_and_right, exists_or, exists_eq_left, later, ↓reduceIte, or_true]
    · simp only [List.mem_cons, or_and_right, exists_or, exists_eq_left, later, ↓reduceIte, or_false,
        List.not_mem_nil]
  releases i := by
    rw [rest.releases, first.releases, List.countP_singleton, List.countP_cons]
    omega
  allocations i := (rest.allocations i).trans (first.allocations i)
  budget i := (rest.budget i).trans (first.budget i)

/-- What is left in the books does not depend on the order. -/
theorem Clears.ledger_eq (perm : returns.Perm reordered) (one : Clears returns before after)
    (two : Clears reordered before other) (i : Fin T.size) : after.ledger i = other.ledger i := by
  refine Ledger.ext_live (fun addr => ?_) ?_ ?_ ?_
  · simp only [one.live, two.live, perm.mem_iff]
  · rw [one.budget, two.budget]
  · rw [one.allocations, two.allocations]
  · rw [one.releases, two.releases, perm.countP_eq]

/-- After one return, another finds its entries if it found them before, and shares none. -/
theorem Clears.held_iff {first second : Return T} (cleared : Clears [first] before after) :
    second.Held after ↔ second.Held before ∧ first.Apart second := by
  have struck : ∀ i addr, (∃ back ∈ [first], back.Strikes i addr) ↔ first.Strikes i addr :=
    fun i addr => by simp only [List.mem_singleton, exists_eq_left]
  constructor
  · intro held
    have apart : first.Apart second := by
      intro i addr here again
      have found := held i addr again
      rw [cleared.live, if_pos ((struck i addr).2 here)] at found
      cases found
    refine ⟨fun i addr again => ?_, apart⟩
    have found := held i addr again
    rwa [cleared.live, if_neg fun here => apart i addr ((struck i addr).1 here) again] at found
  · rintro ⟨held, apart⟩ i addr again
    rw [cleared.live, if_neg fun here => apart i addr ((struck i addr).1 here) again]
    exact held i addr again

variable [Parent π]

def Accepts (returns : List (Return T)) (store : Store T π) : Prop :=
  ∀ answer ∈ (calls (returns.map Return.call) store).1, answer = .ok none

theorem accepts_cons : store.Accepts (back :: returns) ↔
    (store.call back.call).1 = .ok none ∧ (store.call back.call).2.Accepts returns :=
  List.forall_mem_cons

/-- One return is accepted if its entries are there. -/
theorem call_return_iff : (store.call back.call).1 = .ok none ↔ back.Held store := by
  have apart := T.path_nodup back.ledger
  rw [Return.call, call_deallocate]
  have quiet : (store.deallocate (some back.ledger) back.addr back.layout).1 = none ↔
      back.Held store := by
    constructor
    · rintro accepted i addr ⟨on, rfl, positive⟩
      exact (Ledger.strike_accepted_iff.1 (strike_of_accepted apart accepted i on)).resolve_left
        positive
    · intro held
      refine (deallocateAlong_accepted apart fun i on => Ledger.strike_accepted_iff.2 ?_).1
      exact (Decidable.em (back.layout.size = 0)).imp_right fun positive =>
        held i back.addr ⟨on, rfl, positive⟩
  rw [← quiet]
  cases (store.deallocate (some back.ledger) back.addr back.layout).1 with
  | none => simp only [Option.elim_none]
  | some fault => simp only [Option.elim_some, reduceCtorEq]

/-- One return that is accepted strikes its entries and no others. -/
theorem clears_call (accepted : (store.call back.call).1 = .ok none) :
    Clears [back] store (store.call back.call).2 := by
  have apart := T.path_nodup back.ledger
  have struck : ∀ i ∈ T.path back.ledger,
      ((store.ledger i).strike back.addr back.layout).1 = none := fun i on =>
    Ledger.strike_accepted_iff.2 <| (Decidable.em (back.layout.size = 0)).imp_right fun positive =>
      call_return_iff.1 accepted i back.addr ⟨on, rfl, positive⟩
  have ledgers : ∀ i, (store.call back.call).2.ledger i = if i ∈ T.path back.ledger then
      ((store.ledger i).strike back.addr back.layout).2 else store.ledger i := by
    rw [Return.call, call_deallocate]
    exact (deallocateAlong_accepted apart struck).2.2
  refine ⟨fun i addr => ?_, fun i => ?_, fun i => ?_, fun i => ?_⟩ <;> rw [ledgers]
  · by_cases on : i ∈ T.path back.ledger
    · simp only [on, ↓reduceIte, Ledger.live_strike, List.mem_singleton, exists_eq_left,
        Return.Strikes, true_and]
    · simp only [on, ↓reduceIte, List.mem_singleton, exists_eq_left, Return.Strikes, false_and]
  · rw [List.countP_singleton]
    by_cases on : i ∈ T.path back.ledger
    · simp only [on, ↓reduceIte, Ledger.releases_strike, struck i on, decide_true]
    · simp only [on, ↓reduceIte, decide_false, Bool.false_eq_true, Nat.add_zero]
  · split
    · exact Ledger.allocations_strike _ _ _
    · rfl
  · split
    · exact Ledger.budget_strike _ _ _
    · rfl

/-- When a list of returns is accepted throughout. -/
theorem accepts_iff : store.Accepts returns ↔
    (∀ back ∈ returns, back.Held store) ∧ returns.Pairwise Return.Apart := by
  induction returns generalizing store with
  | nil => simp only [Accepts, List.map_nil, calls, List.not_mem_nil, false_implies, implies_true,
      List.Pairwise.nil, and_self]
  | cons back returns ih =>
    rw [accepts_cons, call_return_iff, List.forall_mem_cons, List.pairwise_cons, and_assoc]
    refine and_congr_right fun here => ?_
    have cleared := clears_call (call_return_iff.2 here)
    rw [ih]
    simp only [cleared.held_iff, forall_and, and_assoc]

theorem clears_calls (accepted : store.Accepts returns) :
    Clears returns store (calls (returns.map Return.call) store).2 := by
  induction returns generalizing store with
  | nil => exact .nil store
  | cons back returns ih =>
    obtain ⟨here, behind⟩ := accepts_cons.1 accepted
    exact (clears_call here).cons (ih behind)

/-- Returns that are accepted throughout in one order are so in any other, and leave the same in
every ledger: what is on record, the counts and the budget. -/
theorem calls_perm (accepted : store.Accepts returns) (perm : returns.Perm reordered) :
    store.Accepts reordered ∧
      ∀ i, (calls (reordered.map Return.call) store).2.ledger i =
        (calls (returns.map Return.call) store).2.ledger i := by
  obtain ⟨held, apart⟩ := accepts_iff.1 accepted
  have accepted' : store.Accepts reordered := accepts_iff.2
    ⟨fun back member => held back (perm.mem_iff.2 member),
      (perm.pairwise_iff Return.Apart.symm).1 apart⟩
  exact ⟨accepted', (clears_calls accepted').ledger_eq perm.symm (clears_calls accepted)⟩

/-- Blocks of two ledgers and of the one on which they stand, and one without bytes, are given back
in the order in which they were handed out and then in the opposite one. -/
theorem calls_perm_fork :
    let asked : List (Call .fork) := [.allocate (1 : Fin 3) ⟨24, 8⟩, .allocate (2 : Fin 3) ⟨16, 8⟩,
      .allocate (0 : Fin 3) ⟨24, 8⟩]
    let store : Store .fork Arena := (calls asked (.opened (fun _ => some 5) (.ofCapacity 4096))).2
    let returns : List (Return .fork) := [⟨(1 : Fin 3), 4096, ⟨24, 8⟩⟩,
      ⟨(2 : Fin 3), 4120, ⟨16, 8⟩⟩, ⟨(0 : Fin 3), 4136, ⟨24, 8⟩⟩, ⟨(2 : Fin 3), 8, ⟨0, 8⟩⟩]
    store.Accepts returns ∧ returns.Perm returns.reverse ∧ store.Accepts returns.reverse ∧
      ∀ i, (calls (returns.reverse.map Return.call) store).2.ledger i =
        (calls (returns.map Return.call) store).2.ledger i := by
  intro asked store returns
  have accepted : store.Accepts returns := by
    unfold Accepts
    decide +kernel
  have perm : returns.Perm returns.reverse := returns.reverse_perm.symm
  exact ⟨accepted, perm, calls_perm accepted perm⟩

end Store

end ChainLedger
