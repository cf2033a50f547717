import ChainLedger.Proofs.Comparison
import ChainLedger.Proofs.Freshness
import ChainLedger.Proofs.History
import Mathlib.Data.List.Sort
import Mathlib.Order.Monotone.Basic

/-
One arena alone and the same arena shared. A party that shares its arena with others finds all
blocks further on, by a distance that can only grow; so its addresses are those it would have alone,
renamed by one strictly increasing function, and its ledgers keep the same books up to this renaming
(`Comparison.preserved_alongside`).
-/

set_option autoImplicit false

namespace ChainLedger

section Arenas

variable {met : Nat → Nat → Prop} {arena arena' : Arena}

/-- The second arena is ahead of the first: every address met in both is further on in the second,
by a shift that grows with the address and leaves room for the next block. -/
structure Arena.Ahead (met : Nat → Nat → Prop) (arena arena' : Arena) : Prop where
  stop : arena'.stop = arena.stop
  shifted : ∃ shift : Nat → Nat, Monotone shift ∧
    (∀ addr, roundUp arena.next 8 + shift addr ≤ roundUp arena'.next 8) ∧
    ∀ first second, met first second → second = first + shift first ∧ first < roundUp arena.next 8

theorem roundUp_mono {first second align : Nat} (less : first ≤ second) :
    roundUp first align ≤ roundUp second align :=
  Nat.mul_le_mul_right _ (Nat.div_le_div_right (Nat.add_le_add_right less _))

theorem roundUp_roundUp_add (next : Nat) : roundUp (roundUp next 8 + 24) 8 = roundUp next 8 + 24 :=
  roundUp_of_dvd _ 8 (by decide) (Nat.dvd_add (dvd_roundUp next 8) (by decide))

namespace Arena.Ahead

theorem refl (arena : Arena) : Ahead (fun _ _ => False) arena arena where
  stop := rfl
  shifted := ⟨fun _ => 0, monotone_const, fun _ => le_refl _, fun _ _ pair => pair.elim⟩

/-- One strictly increasing renaming fits all addresses met. -/
theorem exists_renames (ahead : Ahead met arena arena') :
    ∃ addr, StrictMono addr ∧ Comparison.Renames met addr := by
  obtain ⟨shift, grows, -, pairs⟩ := ahead.shifted
  exact ⟨fun addr => addr + shift addr,
    fun first second less => Nat.add_lt_add_of_lt_of_le less (grows less.le),
    fun first second pair => (pairs first second pair).1.symm⟩

theorem eq_iff (ahead : Ahead met arena arena') {first first' second second' : Nat}
    (pair : met first first') (other : met second second') : first = second ↔ first' = second' := by
  obtain ⟨addr, increasing, renames⟩ := ahead.exists_renames
  rw [← renames _ _ pair, ← renames _ _ other, increasing.injective.eq_iff]

theorem advance (ahead : Ahead met arena arena') {later : Arena} (less : arena'.next ≤ later.next)
    (stop : later.stop = arena'.stop) : Ahead met arena later := by
  obtain ⟨shift, grows, room, pairs⟩ := ahead.shifted
  exact ⟨stop.trans ahead.stop,
    shift, grows, fun addr => (room addr).trans (roundUp_mono less), pairs⟩

/-- A shift is continued past a new block by the shift of this block. -/
theorem exists_wider {shift : Nat → Nat} (grows : Monotone shift) {start start' : Nat}
    (room : ∀ addr, start + shift addr ≤ start') :
    ∃ wider : Nat → Nat, Monotone wider ∧ (∀ addr, start + 24 + wider addr ≤ start' + 24) ∧
      (∀ addr < start, wider addr = shift addr) ∧ start + wider start = start' := by
  refine ⟨fun addr => if addr < start then shift addr else start' - start,
    fun addr other below => ?_, fun addr => ?_, fun addr less => if_pos less, ?_⟩
  · have := grows below
    have := room addr
    simp only
    split <;> split <;> omega
  · have := room addr
    simp only
    split <;> omega
  · have := room start
    simp only [Nat.lt_irrefl, ↓reduceIte]
    omega

theorem grant (ahead : Ahead met arena arena') {addr' : Nat} {after' : Arena}
    (granted' : arena'.allocate ⟨24, 8⟩ = (some addr', after')) :
    ∃ addr after, arena.allocate ⟨24, 8⟩ = (some addr, after) ∧
      Ahead (fun first second => met first second ∨ first = addr ∧ second = addr') after after' ∧
      (∀ second, ¬ met addr second) ∧ ∀ first, ¬ met first addr' := by
  obtain ⟨shift, grows, room, pairs⟩ := ahead.shifted
  have less := (Nat.le_add_right _ _).trans (room 0)
  have roomy : roundUp arena'.next 8 + 24 ≤ arena'.stop := by
    refine Nat.le_of_not_lt fun full => ?_
    rw [Arena.allocate, if_neg (Nat.not_le_of_lt full)] at granted'
    cases granted'
  rw [Arena.allocate, if_pos roomy] at granted'
  obtain ⟨⟨⟩, rfl⟩ := Prod.mk.inj granted'
  obtain ⟨wider, widens, roomier, kept, reached⟩ := exists_wider grows room
  refine ⟨roundUp arena.next 8, ⟨roundUp arena.next 8 + 24, arena.stop⟩, if_pos ?_,
    ⟨ahead.stop, wider, widens, ?_⟩, fun second pair => ?_, fun first pair => ?_⟩
  · rw [← ahead.stop]
    exact (Nat.add_le_add_right less 24).trans roomy
  · simp only [roundUp_roundUp_add]
    refine ⟨roomier, ?_⟩
    rintro first second (pair | ⟨rfl, rfl⟩)
    · obtain ⟨same, below⟩ := pairs first second pair
      exact ⟨(kept first below).symm ▸ same, below.trans_le (Nat.le_add_right _ _)⟩
    · exact ⟨reached.symm, Nat.lt_add_of_pos_right (by decide)⟩
  · exact Nat.lt_irrefl _ (pairs _ second pair).2
  · obtain ⟨same, below⟩ := pairs first _ pair
    have := room first
    have : roundUp arena'.next 8 = first + shift first := same
    omega

end Arena.Ahead

end Arenas

section Ledgers

variable {met later : Nat → Nat → Prop} {ledger ledger' : Ledger} {addr addr' : Nat}
  {layout : Layout}

/-- The same books, with every live address met. -/
structure Ledger.Alike (met : Nat → Nat → Prop) (ledger ledger' : Ledger) : Prop where
  budget : ledger'.budget = ledger.budget
  allocations : ledger'.allocations = ledger.allocations
  releases : ledger'.releases = ledger.releases
  live : ∀ first second, met first second → ledger'.live[second]? = ledger.live[first]?
  known : ∀ (first : Nat) layout, ledger.live[first]? = some layout → ∃ second, met first second
  known' : ∀ (second : Nat) layout, ledger'.live[second]? = some layout → ∃ first, met first second

namespace Ledger.Alike

theorem opened (budget : Option Nat) : Alike met (.opened budget) (.opened budget) where
  budget := rfl
  allocations := rfl
  releases := rfl
  live _ _ _ := by simp only [Ledger.opened, Std.ExtTreeMap.getElem?_empty]
  known _ _ found := by
    simp only [Ledger.opened, Std.ExtTreeMap.getElem?_empty, reduceCtorEq] at found
  known' _ _ found := by
    simp only [Ledger.opened, Std.ExtTreeMap.getElem?_empty, reduceCtorEq] at found

theorem setBudget (alike : ledger.Alike met ledger') (budget : Option Nat) :
    Alike met { ledger with budget } { ledger' with budget } :=
  { alike with budget := rfl }

/-- No block is live at a pair of new addresses. -/
theorem extend (alike : ledger.Alike met ledger') (apart : ∀ second, ¬ met addr second)
    (apart' : ∀ first, ¬ met first addr') :
    ledger.Alike (fun first second => met first second ∨ first = addr ∧ second = addr')
      ledger' where
  budget := alike.budget
  allocations := alike.allocations
  releases := alike.releases
  live := by
    rintro first second (pair | ⟨rfl, rfl⟩)
    · exact alike.live first second pair
    · rw [Option.eq_none_iff_forall_ne_some.2 fun layout found =>
          (alike.known first layout found).elim apart,
        Option.eq_none_iff_forall_ne_some.2 fun layout found =>
          (alike.known' second layout found).elim apart']
  known first layout found := (alike.known first layout found).imp fun _ => Or.inl
  known' second layout found := (alike.known' second layout found).imp fun _ => Or.inl

variable (distinct : ∀ first second, met first second → (addr = first ↔ addr' = second))
include distinct

theorem enter (alike : ledger.Alike met ledger') (pair : met addr addr') :
    Alike met (ledger.enter addr layout).2 (ledger'.enter addr' layout).2 where
  budget := by rw [budget_enter, budget_enter, alike.budget]
  allocations := by rw [allocations_enter, allocations_enter, alike.allocations]
  releases := by rw [releases_enter, releases_enter, alike.releases]
  live first second found := by
    simp only [live_enter, alike.live first second found, distinct first second found]
  known first recorded found := by
    rw [live_enter] at found
    split at found
    · next here => exact ⟨addr', here.1 ▸ pair⟩
    · exact alike.known first recorded found
  known' second recorded found := by
    rw [live_enter] at found
    split at found
    · next here => exact ⟨addr, here.1 ▸ pair⟩
    · exact alike.known' second recorded found

theorem strike (alike : ledger.Alike met ledger')
    (accepted : (ledger.strike addr layout).1 = none)
    (accepted' : (ledger'.strike addr' layout).1 = none) :
    Alike met (ledger.strike addr layout).2 (ledger'.strike addr' layout).2 where
  budget := by rw [budget_strike, budget_strike, alike.budget]
  allocations := by rw [allocations_strike, allocations_strike, alike.allocations]
  releases := by rw [releases_strike, releases_strike, accepted, accepted', alike.releases]
  live first second found := by
    simp only [live_strike, alike.live first second found, distinct first second found]
  known first recorded found := by
    rw [live_strike] at found
    split at found
    · cases found
    · exact alike.known first recorded found
  known' second recorded found := by
    rw [live_strike] at found
    split at found
    · cases found
    · exact alike.known' second recorded found

omit distinct

variable {rename : Nat → Nat}

/-- Books that are alike show the same blocks in the same order, renamed. -/
theorem snapshot (alike : ledger.Alike met ledger') (increasing : StrictMono rename)
    (renames : Comparison.Renames met rename) :
    ledger'.snapshot = ledger.snapshot.map fun (addr, size) => (rename addr, size) := by
  have ordered : (ledger.snapshot.map fun (addr, size) => (rename addr, size)).Pairwise
      fun first second => first.1 < second.1 :=
    List.pairwise_map.2 (ledger.snapshot_ascending.imp fun less => increasing less)
  have irreflexive : Std.Irrefl fun first second : Nat × Nat => first.1 < second.1 :=
    ⟨fun entry => Nat.lt_irrefl entry.1⟩
  have antisymmetric : Std.Antisymm fun first second : Nat × Nat => first.1 < second.1 :=
    ⟨fun _ _ less more => absurd less (Nat.lt_asymm more)⟩
  refine ledger'.snapshot_ascending.eq_of_mem_iff ordered fun (second, size) => ?_
  simp only [mem_snapshot, List.mem_map, Prod.exists, Prod.mk.injEq]
  constructor
  · rintro ⟨layout, recorded, same⟩
    obtain ⟨first, pair⟩ := alike.known' second layout recorded
    rw [alike.live first second pair] at recorded
    exact ⟨first, size, ⟨layout, recorded, same⟩, renames first second pair, rfl⟩
  · rintro ⟨first, _, ⟨layout, recorded, rfl⟩, rfl, rfl⟩
    obtain ⟨second, pair⟩ := alike.known first layout recorded
    obtain rfl := renames first second pair
    exact ⟨layout, (alike.live first _ pair).trans recorded, rfl⟩

end Ledger.Alike

end Ledgers

def Relabelling.moved (T : Layering) (addr : Nat → Nat) : Relabelling T T :=
  ⟨addr, id, id⟩

section Stores

variable {T : Layering} {own : Fin T.size → Prop} {met : Nat → Nat → Prop}
  {store store' : Store T Arena}

/-- A store with an arena of its own, and one whose arena is shared: both have written down the
same, and the ledgers of the party are alike. -/
structure Store.Alongside (own : Fin T.size → Prop) (met : Nat → Nat → Prop)
    (store store' : Store T Arena) : Prop where
  events : ∀ addr, Comparison.Renames met addr →
    store'.trace = store.trace.map (Relabelling.moved T addr).event
  ledgers : ∀ i, own i → (store.ledger i).Alike met (store'.ledger i)
  arena : store.parent.Ahead met store'.parent

theorem recordLayout_arena (owner : Handle T) : recordLayout Arena owner = ⟨24, 8⟩ := by
  cases owner <;> rfl

namespace Store.Alongside

theorem opened (budgets : Fin T.size → Option Nat) (arena : Arena) :
    Alongside own (fun _ _ => False) (.opened budgets arena) (.opened budgets arena) where
  events _ _ := rfl
  ledgers i _ := by
    rw [ledger_opened]
    exact .opened _
  arena := .refl arena

theorem emit (alongside : store.Alongside own met store') {event event' : Event}
    (same : ∀ addr, Comparison.Renames met addr → event' = (Relabelling.moved T addr).event event) :
    (store.emit event).Alongside own met (store'.emit event') where
  events addr renames := by
    rw [Store.emit, Store.emit, List.map_cons, alongside.events addr renames, same addr renames]
  ledgers := alongside.ledgers
  arena := alongside.arena

theorem isSpent_iff (alongside : store.Alongside own met store') {i : Fin T.size} (mine : own i) :
    (store.ledger i).IsSpent ↔ (store'.ledger i).IsSpent := by
  rw [Ledger.IsSpent, Ledger.IsSpent, (alongside.ledgers i mine).budget]

theorem grant (alongside : store.Alongside own met store') {path : List (Fin T.size)}
    (apart : path.Nodup) {addr addr' : Nat} {after after' : Store T Arena}
    (granted : allocateAlong ⟨24, 8⟩ path store = (.ok addr, after))
    (granted' : allocateAlong ⟨24, 8⟩ path store' = (.ok addr', after')) :
    after.Alongside own (fun first second => met first second ∨ first = addr ∧ second = addr')
      after' := by
  obtain ⟨asked, trace, -, ledgers⟩ := allocateAlong_ok apart granted
  obtain ⟨asked', trace', -, ledgers'⟩ := allocateAlong_ok apart granted'
  obtain ⟨_, _, same, ahead, unmet, unmet'⟩ := alongside.arena.grant asked'
  obtain ⟨⟨⟩, rfl⟩ := Prod.mk.inj (same.symm.trans asked)
  refine ⟨fun rename renames => ?_, fun i mine => ?_, ahead⟩
  · rw [trace, trace']
    exact alongside.events rename fun first second pair => renames first second (Or.inl pair)
  · have extended := (alongside.ledgers i mine).extend unmet unmet'
    rw [ledgers, ledgers']
    split
    · exact extended.enter (fun first second pair => ahead.eq_iff (Or.inr ⟨rfl, rfl⟩) pair)
        (Or.inr ⟨rfl, rfl⟩)
    · exact extended

theorem free (alongside : store.Alongside own met store') {node node' : Node T}
    (pair : met node.addr node'.addr) (value : node'.value = node.value)
    (owner : node'.owner = node.owner) (accepted : (node.free store).1 = none)
    (accepted' : (node'.free store').1 = none) :
    (node.free store).2.Alongside own met (node'.free store').2 := by
  obtain ⟨every, ledgers⟩ := Node.ledger_free accepted
  obtain ⟨every', ledgers'⟩ := Node.ledger_free accepted'
  refine ⟨fun addr renames => ?_, fun i mine => ?_, ?_⟩
  · rw [Node.trace_free, Node.trace_free, List.map_cons, alongside.events addr renames, value,
      ← renames _ _ pair]
    rfl
  · rw [ledgers, ledgers', owner]
    split
    · next on =>
      exact (alongside.ledgers i mine).strike
        (fun first second found => alongside.arena.eq_iff pair found) (every i on)
        (owner ▸ every' i (owner.symm ▸ on))
    · exact alongside.ledgers i mine
  · rw [Node.parent_free fun _ _ => rfl, Node.parent_free fun _ _ => rfl]
    exact alongside.arena

theorem setBudget (alongside : store.Alongside own met store') (i : Fin T.size)
    (budget : Option Nat) :
    (store.setBudget i budget).Alongside own met (store'.setBudget i budget) where
  events := alongside.events
  ledgers j mine := by
    simp only [Store.setBudget, ledger_withLedger]
    split
    · next same => exact (alongside.ledgers i (same ▸ mine)).setBudget budget
    · exact alongside.ledgers j mine
  arena := alongside.arena

theorem report (alongside : store.Alongside own met store') {i : Fin T.size} (mine : own i)
    {addr : Nat → Nat} (increasing : StrictMono addr) (renames : Comparison.Renames met addr) :
    LedgerReport.ofStore store' i =
      (Relabelling.moved T addr).ledgerReport (LedgerReport.ofStore store i) := by
  have alike := alongside.ledgers i mine
  have shown := alike.snapshot increasing renames
  have live : (store'.ledger i).liveCount = (store.ledger i).liveCount := by
    rw [← Ledger.length_snapshot, shown, List.length_map, Ledger.length_snapshot]
  simp only [LedgerReport.ofStore, Relabelling.ledgerReport, alike.allocations, alike.budget,
    alike.releases, live, shown]
  rfl

end Store.Alongside

/-- A system with an arena of its own on the one hand, and with a shared one on the other. -/
def Comparison.alongside (own : Fin T.size → Prop) : Comparison T T Arena Arena where
  owner := id
  layout := id
  Allowed owner := ∀ i ∈ owner.path, own i
  Stores := Store.Alongside own

theorem Comparison.preserved_alongside (own : Fin T.size → Prop) : (alongside own).Preserved where
  renames alongside := alongside.arena.exists_renames.imp fun _ => And.right
  layout_record _ := rfl
  allocate := by
    intro met store store' handle alongside mine fair
    have same : (Comparison.alongside own).owner handle = handle := rfl
    simp only [recordLayout_arena, Store.allocate, same] at fair ⊢
    by_cases spent' : ∃ i ∈ handle.path, (store'.ledger i).IsSpent
    · have spent : ∃ i ∈ handle.path, (store.ledger i).IsSpent :=
        spent'.imp fun i found => ⟨found.1, (alongside.isSpent_iff (mine i found.1)).2 found.2⟩
      rw [Store.allocateAlong_of_spent spent, Store.allocateAlong_of_spent spent']
      exact .refused (alongside.emit fun _ _ => rfl)
    · have unspent' : ∀ i ∈ handle.path, ¬ (store'.ledger i).IsSpent := fun i on here =>
        spent' ⟨i, on, here⟩
      have unspent : ∀ i ∈ handle.path, ¬ (store.ledger i).IsSpent := fun i on here =>
        unspent' i on ((alongside.isSpent_iff (mine i on)).1 here)
      rcases Store.allocateAlong_of_unspent unspent' fair.quiet' with
        ⟨addr', after', granted'⟩ | ⟨after', refused', -, trace'⟩
      · rcases Store.allocateAlong_of_unspent unspent fair.quiet with
          ⟨addr, after, granted⟩ | ⟨after, -, full, -⟩
        · rw [granted, granted']
          exact .granted (fun _ _ => Or.inl) (Or.inr ⟨rfl, rfl⟩) fun value =>
            (alongside.grant handle.path_nodup granted granted').emit fun addr renames =>
              congrArg (Event.nodeAllocated value) (renames _ _ (Or.inr ⟨rfl, rfl⟩)).symm
        · -- The arena that is further on had room.
          obtain ⟨_, _, roomy, -⟩ :=
            alongside.arena.grant (Store.allocateAlong_ok handle.path_nodup granted').1
          cases roomy.symm.trans full
      · -- A refusal by the arena alone leaves no note behind.
        have refusing := fair.supplied .refused (congrArg Prod.fst refused')
        rw [refused', Store.refusing_congr trace'] at refusing
        exact absurd refusing fair.unrefused
  free alongside nodes accepted accepted' :=
    alongside.free nodes.addr nodes.value nodes.owner accepted accepted'
  abandon built total alongside := alongside.emit fun _ _ => rfl
  clear alongside := { alongside with events := fun _ _ => rfl }

end Stores

end ChainLedger
