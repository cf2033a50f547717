import ChainLedger.Parent.Arena
import ChainLedger.Parent.Heap
import ChainLedger.Proofs.Request
import ChainLedger.Proofs.Traffic

set_option autoImplicit false

namespace ChainLedger

namespace Parent

/-- What a parent can be asked. -/
inductive Request where
  | allocate (layout : Layout)
  | deallocate (addr : Nat) (layout : Layout)
deriving DecidableEq

/-- An alignment is a power of two, so it is never zero. -/
def Request.IsProper : Request → Prop
  | .allocate layout => 0 < layout.align
  | .deallocate .. => True

variable {π : Type} [Parent π]

/-- The addresses that a parent grants for blocks with bytes, in order. -/
def grants : List Request → π → List Nat
  | [], _ => []
  | .allocate layout :: requests, parent =>
      match Parent.allocate layout parent with
      | (none, parent) => grants requests parent
      | (some addr, parent) =>
          if layout.size = 0 then grants requests parent else addr :: grants requests parent
  | .deallocate addr layout :: requests, parent =>
      grants requests (Parent.deallocate addr layout parent)

/-- Whatever a parent is asked from now on, it grants no address twice. -/
def NeverReuses (parent : π) : Prop :=
  ∀ requests : List Request, (∀ request ∈ requests, request.IsProper) →
    (grants requests parent).Nodup

/-- Whatever a parent is asked from now on, it does not grant this address. -/
def Spent (addr : Nat) (parent : π) : Prop :=
  ∀ requests : List Request, (∀ request ∈ requests, request.IsProper) →
    addr ∉ grants requests parent

variable {layout : Layout} {parent after : π} {addr other : Nat}

theorem NeverReuses.allocate {answer : Option Nat} (fresh : NeverReuses parent)
    (proper : 0 < layout.align) (asked : Parent.allocate layout parent = (answer, after)) :
    NeverReuses after := by
  intro requests allowed
  have whole := fresh (.allocate layout :: requests)
    (List.forall_mem_cons.2 ⟨proper, allowed⟩)
  cases answer with
  | none =>
    simp only [grants, asked] at whole
    exact whole
  | some addr =>
    simp only [grants, asked] at whole
    split at whole
    · exact whole
    · exact (List.nodup_cons.1 whole).2

theorem NeverReuses.deallocate (fresh : NeverReuses parent) (addr : Nat) (layout : Layout) :
    NeverReuses (Parent.deallocate addr layout parent) := fun requests allowed =>
  fresh (.deallocate addr layout :: requests) (List.forall_mem_cons.2 ⟨trivial, allowed⟩)

/-- An address is spent once it is granted. -/
theorem NeverReuses.spent (fresh : NeverReuses parent) (proper : 0 < layout.align)
    (positive : layout.size ≠ 0) (granted : Parent.allocate layout parent = (some addr, after)) :
    Spent addr after := by
  intro requests allowed
  have whole := fresh (.allocate layout :: requests)
    (List.forall_mem_cons.2 ⟨proper, allowed⟩)
  simp only [grants, granted, positive, ↓reduceIte] at whole
  exact (List.nodup_cons.1 whole).1

theorem Spent.allocate {answer : Option Nat} (spent : Spent addr parent)
    (proper : 0 < layout.align) (asked : Parent.allocate layout parent = (answer, after)) :
    Spent addr after := by
  intro requests allowed
  have whole := spent (.allocate layout :: requests)
    (List.forall_mem_cons.2 ⟨proper, allowed⟩)
  cases answer with
  | none =>
    simp only [grants, asked] at whole
    exact whole
  | some granted =>
    simp only [grants, asked] at whole
    split at whole
    · exact whole
    · intro found
      exact whole (List.mem_cons_of_mem _ found)

theorem Spent.deallocate (spent : Spent addr parent) (other : Nat) (layout : Layout) :
    Spent addr (Parent.deallocate other layout parent) := fun requests allowed =>
  spent (.deallocate other layout :: requests) (List.forall_mem_cons.2 ⟨trivial, allowed⟩)

theorem Spent.ne_of_granted (spent : Spent addr parent) (proper : 0 < layout.align)
    (positive : layout.size ≠ 0) (granted : Parent.allocate layout parent = (some other, after)) :
    other ≠ addr := by
  rintro rfl
  have whole := spent [.allocate layout]
    (List.forall_mem_cons.2 ⟨proper, List.forall_mem_nil _⟩)
  simp only [grants, granted, positive, ↓reduceIte, List.mem_cons, true_or,
    not_true_eq_false] at whole

end Parent

section Parents

/-- A parent that keeps a position, starts each block at or behind it and moves it past the block,
never grants an address twice. -/
theorem Parent.neverReuses_of_advancing {π : Type} [Parent π] (position : π → Nat)
    (granted : ∀ layout (parent after : π) addr, 0 < layout.align →
      Parent.allocate layout parent = (some addr, after) →
        position parent ≤ addr ∧ addr + layout.size ≤ position after)
    (refused : ∀ layout (parent after : π),
      Parent.allocate layout parent = (none, after) → position after = position parent)
    (returned : ∀ addr layout (parent : π),
      position (Parent.deallocate addr layout parent) = position parent) (parent : π) :
    NeverReuses parent := by
  suffices ascending : ∀ (requests : List Request) (parent : π),
      (∀ request ∈ requests, request.IsProper) →
        (grants requests parent).Nodup ∧ ∀ addr ∈ grants requests parent,
          position parent ≤ addr from
    fun requests allowed => (ascending requests parent allowed).1
  intro requests
  induction requests with
  | nil => exact fun parent _ => ⟨List.nodup_nil, List.forall_mem_nil _⟩
  | cons request requests ih =>
    intro parent allowed
    obtain ⟨proper, rest⟩ := List.forall_mem_cons.1 allowed
    cases request with
    | deallocate addr layout =>
      have later := ih (Parent.deallocate addr layout parent) rest
      rw [returned] at later
      exact later
    | allocate layout =>
      rcases asked : Parent.allocate layout parent with ⟨_ | addr, after⟩
      · have later := ih after rest
        rw [refused layout parent after asked] at later
        simp only [grants, asked]
        exact later
      · obtain ⟨start, stop⟩ := granted layout parent after addr proper asked
        obtain ⟨apart, behind⟩ := ih after rest
        simp only [grants, asked]
        split
        · exact ⟨apart, fun found member => by have := behind found member; omega⟩
        · next positive =>
          refine ⟨List.nodup_cons.2 ⟨fun member => ?_, apart⟩, fun found member => ?_⟩
          · have := behind addr member
            omega
          · rcases List.mem_cons.1 member with rfl | member
            · exact start
            · have := behind found member
              omega

/-- An arena that is not moved back never grants an address twice. -/
theorem Arena.neverReuses (arena : Arena) : Parent.NeverReuses arena :=
  Parent.neverReuses_of_advancing Arena.next
    (fun _ _ _ _ positive granted => Arena.le_of_allocate_some positive granted)
    (fun _ _ _ refused => congrArg Arena.next (Arena.allocate_none refused).1)
    (fun _ _ _ => rfl) arena

theorem Heap.neverReuses (heap : Heap) : Parent.NeverReuses heap := by
  refine Parent.neverReuses_of_advancing Heap.next (fun layout heap after addr positive granted => ?_)
    (fun layout heap after refused => ?_) (fun _ _ _ => rfl) heap
  · by_cases spent : heap.remaining = some 0
    · cases (Heap.allocate_of_spent spent).symm.trans granted
    · have above := le_roundUp heap.next layout.align positive
      cases (Heap.allocate_of_left spent).symm.trans granted
      exact ⟨above, Nat.le_refl _⟩
  · by_cases spent : heap.remaining = some 0
    · cases (Heap.allocate_of_spent spent).symm.trans refused
      rfl
    · cases (Heap.allocate_of_left spent).symm.trans refused

end Parents

section Stores

variable {T : Layering} {π : Type} [Parent π] {store after : Store T π}
  {held left : Multiset (Node T)}

/-- A request reaches the parent once or not at all. -/
theorem Store.parent_allocate {handle : Handle T} {layout : Layout} {answer : Except Failure Nat}
    (asked : store.allocate handle layout = (answer, after)) :
    after.parent = store.parent ∨
      ∃ granted, Parent.allocate layout store.parent = (granted, after.parent) := by
  rcases answer with (_ | fault | wanted) | addr
  · exact (allocateAlong_refused asked).2.elim (fun spent => Or.inl spent.1)
      fun full => Or.inr ⟨none, full.1⟩
  · obtain ⟨addr, _, _, _, _, granted, _⟩ := allocateAlong_fault handle.path_nodup asked
    exact Or.inr ⟨some addr, granted⟩
  · exact absurd (congrArg Prod.fst asked) (allocateAlong_ne_aborted _ _ _ _)
  · exact Or.inr ⟨some addr, (allocateAlong_ok handle.path_nodup asked).1⟩

theorem Store.parent_deallocate (handle : Handle T) (addr : Nat) (layout : Layout)
    (store : Store T π) :
    (store.deallocate handle addr layout).2.parent = store.parent ∨
      (store.deallocate handle addr layout).2.parent =
        Parent.deallocate addr layout store.parent := by
  simp only [deallocate]
  induction handle.path generalizing store with
  | nil => exact Or.inr rfl
  | cons i inner ih =>
    unfold deallocateAlong
    split
    · exact ih _
    · exact Or.inl rfl

/-- Where returns are ignored, a node that is freed leaves the parent as it is. -/
theorem Node.parent_free
    (ignored : ∀ addr layout, Parent.deallocate addr layout store.parent = store.parent)
    (node : Node T) : (node.free store).2.parent = store.parent :=
  (Store.parent_deallocate node.owner node.addr _ _).elim id fun returned =>
    returned.trans (ignored _ _)

theorem recordLayout_proper (owner : Handle T) :
    0 < (recordLayout π owner).align ∧ (recordLayout π owner).size ≠ 0 := by
  cases owner with
  | none => exact ⟨by simp only [recordLayout]; omega, by simp only [recordLayout]; omega⟩
  | some i => exact ⟨by simp only [recordLayout]; omega, by simp only [recordLayout]; omega⟩

/-- The parent grants no address twice, and none at which a node is held. -/
structure Fresh (store : Store T π) (held : Multiset (Node T)) : Prop where
  parent : Parent.NeverReuses store.parent
  spent : ∀ node ∈ held, Parent.Spent node.addr store.parent

theorem Node.parent_of_allocate {demand : Demand} {owner : Handle T} {value : Int64}
    {node : Node T} (granted : allocate demand owner value store = (.ok node, after)) :
    Parent.allocate (recordLayout π owner) store.parent = (some node.addr, after.parent) := by
  obtain ⟨between, asked, rfl⟩ := granted_of_allocate granted
  exact (Store.allocateAlong_ok owner.path_nodup asked).1

/-- A new node stands where no node is held. -/
theorem Fresh.apart (fresh : Fresh store held) {demand : Demand} {owner : Handle T} {value : Int64}
    {node : Node T} (granted : Node.allocate demand owner value store = (.ok node, after)) :
    ∀ other ∈ held, other.addr ≠ node.addr := by
  intro other member same
  have proper := recordLayout_proper (π := π) owner
  exact (fresh.spent other member).ne_of_granted proper.1 proper.2
    (Node.parent_of_allocate granted) same.symm

theorem Fresh.request (fresh : Fresh store held) {handle : Handle T} {layout : Layout}
    {answer : Except Failure Nat} (proper : 0 < layout.align)
    (asked : store.allocate handle layout = (answer, after)) : Fresh after held := by
  rcases Store.parent_allocate asked with same | ⟨granted, reached⟩
  · exact ⟨same ▸ fresh.parent, fun node member => same ▸ fresh.spent node member⟩
  · exact ⟨fresh.parent.allocate proper reached,
      fun node member => (fresh.spent node member).allocate proper reached⟩

theorem Fresh.giveBack (fresh : Fresh store held) (handle : Handle T) (addr : Nat)
    (layout : Layout) : Fresh (store.deallocate handle addr layout).2 held := by
  rcases Store.parent_deallocate handle addr layout store with same | reached
  · exact ⟨same ▸ fresh.parent, fun node member => same ▸ fresh.spent node member⟩
  · exact ⟨reached ▸ fresh.parent.deallocate addr layout,
      fun node member => reached ▸ (fresh.spent node member).deallocate addr layout⟩

/-- Addresses stay fresh as long as the parent is not changed from outside. -/
theorem Fresh.move {fault : Option Fault} (fresh : Fresh store held)
    (move : Move False store held fault after left) : Fresh after left := by
  cases move with
  | @allocate demand owner value _ _ node _ granted =>
    have proper := recordLayout_proper (π := π) owner
    have asked := Node.parent_of_allocate granted
    refine ⟨fresh.parent.allocate proper.1 asked, fun other member => ?_⟩
    rcases Multiset.mem_cons.1 member with rfl | member
    · exact fresh.parent.spent proper.1 proper.2 asked
    · exact (fresh.spent other member).allocate proper.1 asked
  | @fail demand owner value _ _ failure _ failed =>
    obtain ⟨cause, asked, _⟩ := Node.asked_of_allocate failed
    exact fresh.request (recordLayout_proper owner).1 asked
  | @free node _ _ _ _ freed =>
    have rest : Fresh store left :=
      ⟨fresh.parent, fun other member => fresh.spent other (Multiset.mem_cons_of_mem member)⟩
    have noted : Fresh (store.emit (.nodeReleased node.value node.addr)) left :=
      ⟨rest.parent, rest.spent⟩
    have returned := noted.giveBack node.owner node.addr (recordLayout π node.owner)
    rw [show after = _ from (congrArg Prod.snd freed).symm]
    exact returned
  | abandon => exact ⟨fresh.parent, fresh.spent⟩
  | setBudget => exact ⟨fresh.parent, fresh.spent⟩
  | request allowed => exact allowed.elim
  | giveBack allowed => exact allowed.elim
  | configure allowed => exact allowed.elim

end Stores

end ChainLedger
