import ChainLedger.Proofs.Discipline
import ChainLedger.Proofs.Passage

set_option autoImplicit false

namespace ChainLedger

section Parents

variable {π : Type} [Parent π]

/-- What has become of a parent after requests for blocks of one layout, so many of which it has
granted, and returns of some of these blocks. The others are out at the given addresses. -/
inductive Parent.Served (layout : Layout) (first : π) : Nat → Multiset Nat → π → Prop where
  | start : Served layout first 0 0 first
  | granted {count addr : Nat} {out : Multiset Nat} {parent after : π}
      (served : Served layout first count out parent)
      (granted : Parent.allocate layout parent = (some addr, after)) :
      Served layout first (count + 1) (addr ::ₘ out) after
  | returned {count addr : Nat} {out : Multiset Nat} {parent : π}
      (served : Served layout first count (addr ::ₘ out) parent) :
      Served layout first count out (Parent.deallocate addr layout parent)

/-- So many requests for blocks of a layout are granted, and none with the address of a block that
is out. Addresses of blocks that have been returned may be granted again. -/
def Parent.Supplies (layout : Layout) (limit : Nat) (first : π) : Prop :=
  ∀ count out parent, Served layout first count out parent → count < limit →
    ∃ addr after, Parent.allocate layout parent = (some addr, after) ∧ addr ∉ out

theorem Heap.supplies {layout : Layout} {heap : Heap} (proper : 0 < layout.align)
    (positive : layout.size ≠ 0) (endless : heap.remaining = none) (limit : Nat) :
    Parent.Supplies layout limit heap := by
  have step : ∀ heap : Heap, heap.remaining = none → Parent.allocate layout heap =
      (some (roundUp heap.next layout.align),
        (⟨roundUp heap.next layout.align + layout.size, none⟩ : Heap)) := by
    intro heap endless
    have left : heap.remaining ≠ some 0 := by rw [endless]; nofun
    exact (allocate_of_left left).trans (by rw [endless]; rfl)
  -- The blocks that are out lie in front of the next one.
  have front : ∀ count out (reached : Heap), Parent.Served layout heap count out reached →
      reached.remaining = none ∧ ∀ addr ∈ out, addr < reached.next := by
    intro count out reached served
    induction served with
    | start => exact ⟨endless, fun addr member => absurd member (Multiset.notMem_zero addr)⟩
    | @granted _ addr out parent after _ granted ih =>
      obtain ⟨endless, below⟩ := ih
      cases (step parent endless).symm.trans granted
      have above := le_roundUp parent.next layout.align proper
      refine ⟨rfl, fun other member => ?_⟩
      rcases Multiset.mem_cons.1 member with rfl | older
      · show roundUp parent.next layout.align < roundUp parent.next layout.align + layout.size
        omega
      · have := below other older
        show other < roundUp parent.next layout.align + layout.size
        omega
    | returned _ ih => exact ⟨ih.1, fun other member => ih.2 other (Multiset.mem_cons_of_mem member)⟩
  intro count out reached served _
  obtain ⟨endless, below⟩ := front count out reached served
  refine ⟨_, _, step reached endless, fun member => ?_⟩
  have above := le_roundUp reached.next layout.align proper
  have := below _ member
  omega

end Parents

variable {T : Layering} {π : Type} [Parent π]

/-- The books of ledger `i` at a point where `count` nodes have been allocated since it was opened
with a budget over the parent `first`, all but these nodes having been freed again. -/
structure Stocked (i : Fin T.size) (budget : Option Nat) (first : π) (count : Nat)
    (nodes : Multiset (Node T)) (store : Store T π) : Prop where
  served : Parent.Served (recordLayout π (some i)) first count (nodes.map Node.addr) store.parent
  owned : ∀ node ∈ nodes, node.owner = some i
  distinct : (nodes.map Node.addr).Nodup
  live : ∀ addr : Nat, (store.ledger i).live[addr]? =
    if addr ∈ nodes.map Node.addr then some (recordLayout π (some i)) else none
  budget : Ledger.Remains count budget (store.ledger i).budget
  allocations : (store.ledger i).allocations = count
  releases : (store.ledger i).releases + nodes.card = count
  liveCount : (store.ledger i).liveCount = nodes.card

namespace Stocked

variable {i : Fin T.size} {budget : Option Nat} {first : π} {count limit : Nat}
  {nodes : Multiset (Node T)} {node : Node T} {store after : Store T π}

theorem opened (i : Fin T.size) (budgets : Fin T.size → Option Nat) (parent : π) :
    Stocked i (budgets i) parent 0 0 (.opened budgets parent) where
  served := .start
  owned node member := absurd member (Multiset.notMem_zero node)
  distinct := Multiset.nodup_zero
  live addr := by
    rw [Store.ledger_opened]
    exact Std.ExtTreeMap.getElem?_empty
  budget := by
    rw [Store.ledger_opened]
    exact Ledger.remains_zero _
  allocations := by rw [Store.ledger_opened]; rfl
  releases := by rw [Store.ledger_opened]; rfl
  liveCount := by rw [Store.ledger_opened]; rfl

theorem congr (stocked : Stocked i budget first count nodes store)
    (ledger : after.ledger i = store.ledger i) (parent : after.parent = store.parent) :
    Stocked i budget first count nodes after where
  served := parent ▸ stocked.served
  owned := stocked.owned
  distinct := stocked.distinct
  live := ledger ▸ stocked.live
  budget := ledger ▸ stocked.budget
  allocations := ledger ▸ stocked.allocations
  releases := ledger ▸ stocked.releases
  liveCount := ledger ▸ stocked.liveCount

theorem isSpent_iff (stocked : Stocked i budget first count nodes store) :
    (store.ledger i).IsSpent ↔ budget = some count :=
  stocked.budget.eq_zero_iff

/-- What has been taken in by the ledger, at an address that was not out, is one node more. -/
theorem takesIn (stocked : Stocked i budget first count nodes store) (owned : node.owner = some i)
    (granted : Parent.allocate (recordLayout π (some i)) store.parent =
      (some node.addr, after.parent))
    (apart : node.addr ∉ nodes.map Node.addr)
    (taken : (store.ledger i).TakesIn node.addr (recordLayout π (some i)) (after.ledger i)) :
    Stocked i budget first (count + 1) (node ::ₘ nodes) after where
  served := by
    rw [Multiset.map_cons]
    exact stocked.served.granted granted
  owned other member := by
    rcases Multiset.mem_cons.1 member with rfl | older
    · exact owned
    · exact stocked.owned other older
  distinct := by
    rw [Multiset.map_cons]
    exact Multiset.nodup_cons.2 ⟨apart, stocked.distinct⟩
  live addr := by
    rw [taken.live, stocked.live, Multiset.map_cons]
    by_cases same : node.addr = addr
    · subst same
      rw [if_pos ⟨rfl, (recordLayout_proper (some i)).2⟩, if_pos (Multiset.mem_cons_self _ _)]
    · simp only [same, false_and, ↓reduceIte, Multiset.mem_cons, Ne.symm same, false_or]
  budget := stocked.budget.add taken.budget
  allocations := by rw [taken.allocations, stocked.allocations]
  releases := by rw [taken.releases, Multiset.card_cons, ← Nat.add_assoc, stocked.releases]
  liveCount := by
    have free : (store.ledger i).isLive node.addr = false := by
      rw [Ledger.isLive_eq, stocked.live, if_neg apart]
      rfl
    obtain ⟨-, -, liveCount⟩ := Ledger.counts_enter (recordLayout_proper (π := π) (some i)).2 free
    rw [taken.eq_enter, liveCount, stocked.liveCount, Multiset.card_cons]

/-- As long as there is supply and the budget allows it, a node is granted. -/
theorem allocate (stocked : Stocked i budget first count nodes store) (bottom : T.below i = none)
    (supplies : Parent.Supplies (recordLayout π (some i)) limit first) (more : count < limit)
    (unspent : budget ≠ some count) (value : Int64) :
    ∃ node after, Node.allocate .attempt (some i) value store = (.ok node, after) ∧
      node.addr ∉ nodes.map Node.addr ∧
      Stocked i budget first (count + 1) (node ::ₘ nodes) after := by
  have path : Handle.path (some i) = [i] := Layering.path_of_below_none bottom
  have only : ∀ j ∈ Handle.path (some i), j = i := fun j on => List.mem_singleton.1 (path ▸ on)
  obtain ⟨addr, parent, granted, apart⟩ := supplies _ _ _ stocked.served more
  have accepted : ((store.ledger i).enter addr (recordLayout π (some i))).1 = none := by
    rw [Ledger.enter_accepted_iff, Ledger.isLive_eq, stocked.live, if_neg apart]
    exact Or.inr rfl
  obtain ⟨between, asked⟩ := Store.allocateAlong_of_granted (Handle.path_nodup (some i))
    (fun j on => only j on ▸ mt stocked.isSpent_iff.1 unspent) granted
    (fun j on => only j on ▸ accepted)
  obtain ⟨answered, -⟩ := Store.allocateAlong_ok (Handle.path_nodup (some i)) asked
  have taken := (Store.takesIn_of_ok (Handle.path_nodup (some i)) asked).taken i
    (path ▸ List.mem_singleton_self i)
  have one_more : Stocked i budget first (count + 1) (⟨addr, value, some i⟩ ::ₘ nodes) between :=
    stocked.takesIn rfl answered apart taken
  refine ⟨⟨addr, value, some i⟩, between.emit (.nodeAllocated value addr), ?_, apart,
    one_more.congr rfl rfl⟩
  have asked' : store.allocate (some i) (recordLayout π (some i)) = _ := asked
  simp only [Node.allocate, asked']

theorem refuse (stocked : Stocked i budget first count nodes store) (bottom : T.below i = none)
    (spent : budget = some count) (value : Int64) :
    Node.allocate .attempt (some i) value store =
      (.error .refused, store.emit (.requestRefused (recordLayout π (some i)))) := by
  have path : Handle.path (some i) = [i] := Layering.path_of_below_none bottom
  have asked : store.allocate (some i) (recordLayout π (some i)) = _ :=
    Store.allocateAlong_of_spent
      ⟨i, path ▸ List.mem_singleton_self i, stocked.isSpent_iff.2 spent⟩
  simp only [Node.allocate, asked, Demand.onRefusal]

/-- A node is freed without a fault, and its block goes back to the parent. -/
theorem free (stocked : Stocked i budget first count (node ::ₘ nodes) store)
    (bottom : T.below i = none) :
    (node.free store).1 = none ∧ Stocked i budget first count nodes (node.free store).2 := by
  have path : Handle.path (some i) = [i] := Layering.path_of_below_none bottom
  have owned : node.owner = some i := stocked.owned node (Multiset.mem_cons_self _ _)
  have positive := (recordLayout_proper (π := π) (some i)).2
  have distinct := stocked.distinct
  rw [Multiset.map_cons, Multiset.nodup_cons] at distinct
  have recorded : (store.ledger i).live[node.addr]? = some (recordLayout π (some i)) := by
    rw [stocked.live, Multiset.map_cons, if_pos (Multiset.mem_cons_self _ _)]
  have accepted : ∀ j ∈ node.owner.path, (((store.emit (.nodeReleased node.value
      node.addr)).ledger j).strike node.addr (recordLayout π node.owner)).1 = none := by
    intro j on
    rw [owned, path, List.mem_singleton] at on
    subst on
    rw [owned, Ledger.strike_accepted_iff]
    exact Or.inr recorded
  obtain ⟨quiet, parent, ledgers⟩ := Store.deallocateAlong_accepted node.owner.path_nodup accepted
  have struck : (node.free store).2.ledger i =
      ((store.ledger i).strike node.addr (recordLayout π (some i))).2 := by
    have on : i ∈ node.owner.path := by
      rw [owned, path]
      exact List.mem_singleton_self i
    exact (ledgers i).trans (by rw [if_pos on, owned]; rfl)
  obtain ⟨allocations, releases, liveCount⟩ := Ledger.counts_strike positive recorded
  refine ⟨quiet, ?_, fun other member => stocked.owned other (Multiset.mem_cons_of_mem member),
    distinct.2, fun addr => ?_, ?_, ?_, ?_, ?_⟩
  · have returned := stocked.served
    rw [Multiset.map_cons] at returned
    have parent : (node.free store).2.parent = _ := parent
    rw [parent, owned]
    exact returned.returned
  · rw [struck, Ledger.live_strike, stocked.live, Multiset.map_cons]
    by_cases same : node.addr = addr
    · subst same
      rw [if_pos ⟨rfl, positive⟩, if_neg distinct.1]
    · simp only [same, false_and, ↓reduceIte, Multiset.mem_cons, Ne.symm same, false_or]
  · rw [struck, Ledger.budget_strike]
    exact stocked.budget
  · rw [struck, allocations, stocked.allocations]
  · have before := stocked.releases
    rw [Multiset.card_cons] at before
    rw [struck, releases]
    omega
  · have before := stocked.liveCount
    rw [Multiset.card_cons] at before
    rw [struck]
    omega

theorem discard {tail : Tail T} (bottom : T.below i = none)
    (stocked : Stocked i budget first count ↑tail store) :
    (tail.discard store).1 = none ∧ Stocked i budget first count 0 (tail.discard store).2 := by
  induction tail generalizing store with
  | nil => exact ⟨rfl, stocked⟩
  | cons node rest ih =>
    rw [← Multiset.cons_coe] at stocked
    obtain ⟨quiet, stocked⟩ := stocked.free bottom
    obtain ⟨later, stocked⟩ := ih stocked
    rw [Tail.discard_cons, quiet, later]
    exact ⟨rfl, stocked⟩

end Stocked

end ChainLedger
