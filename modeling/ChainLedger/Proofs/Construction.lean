import ChainLedger.Proofs.Passage
import ChainLedger.Proofs.Refusal

set_option autoImplicit false

namespace ChainLedger

variable {T : Layering} {π : Type} [Parent π]

/-- Nodes have been allocated for values one after the other, each in front of those before it. -/
inductive Allocated (demand : Demand) (owner : Handle T) :
    List Int64 → Tail T → Store T π → Store T π → Prop where
  | nil {store : Store T π} : Allocated demand owner [] [] store store
  | cons {value : Int64} {pending : List Int64} {node : Node T} {nodes : Tail T}
      {before between after : Store T π}
      (granted : Node.allocate demand owner value before = (.ok node, between))
      (rest : Allocated demand owner pending nodes between after) :
      Allocated demand owner (value :: pending) (nodes ++ [node]) before after

/-- Nodes of one allocator have been handed out: they are on record with every ledger on the way to
it, counted and taken off the budgets there, and no other ledger has changed. -/
structure HandedOut (owner : Handle T) (nodes : Tail T) (before after : Store T π) : Prop where
  live : ∀ i ∈ owner.path, ∀ addr : Nat, (after.ledger i).live[addr]? =
    if addr ∈ nodes.map Node.addr then some (recordLayout π owner)
    else (before.ledger i).live[addr]?
  budget : ∀ i ∈ owner.path,
    Ledger.Remains nodes.length (before.ledger i).budget (after.ledger i).budget
  allocations : ∀ i ∈ owner.path,
    (after.ledger i).allocations = (before.ledger i).allocations + nodes.length
  releases : ∀ i ∈ owner.path, (after.ledger i).releases = (before.ledger i).releases
  others : ∀ i, i ∉ owner.path → after.ledger i = before.ledger i

/-- Nodes of one allocator have been handed out and given back: the ledgers on the way to it have
counted both and got nothing back of their budgets, and their records are as they were before. -/
structure TakenBack (owner : Handle T) (count : Nat) (before after : Store T π) : Prop where
  live : ∀ i ∈ owner.path, (after.ledger i).live = (before.ledger i).live
  budget : ∀ i ∈ owner.path, Ledger.Remains count (before.ledger i).budget (after.ledger i).budget
  allocations : ∀ i ∈ owner.path,
    (after.ledger i).allocations = (before.ledger i).allocations + count
  releases : ∀ i ∈ owner.path, (after.ledger i).releases = (before.ledger i).releases + count
  others : ∀ i, i ∉ owner.path → after.ledger i = before.ledger i

/-- Nodes of one allocator all pass through the ledgers on the way to it. -/
theorem Tail.countP_path {owner : Handle T} {nodes : Tail T} {i : Fin T.size}
    (owned : ∀ node ∈ nodes, node.owner = owner) (on : i ∈ owner.path) :
    nodes.countP (fun node => i ∈ node.owner.path) = nodes.length :=
  List.countP_eq_length.2 fun node member => by
    rw [owned node member]
    exact decide_eq_true on

/-- A ledger that no node passes through is not changed by giving them back. -/
theorem GivenBack.ledger_eq {nodes : Tail T} {before after : Store T π} {i : Fin T.size}
    (given : GivenBack nodes before after) (off : ∀ node ∈ nodes, i ∉ node.owner.path) :
    after.ledger i = before.ledger i := by
  have none_there : nodes.countP (fun node => i ∈ node.owner.path) = 0 :=
    List.countP_eq_zero.2 fun node member on => off node member (of_decide_eq_true on)
  have releases := given.releases i
  rw [none_there] at releases
  exact Ledger.ext_live
    (fun addr => given.kept i addr fun node member on => absurd on (off node member))
    (given.budget i) (given.allocations i) releases

namespace HandedOut

variable {owner : Handle T} {nodes : Tail T} {node : Node T} {before between after : Store T π}

theorem nil (owner : Handle T) (store : Store T π) : HandedOut owner [] store store where
  live i _ addr := by rw [List.map_nil, if_neg List.not_mem_nil]
  budget i _ := Ledger.remains_zero _
  allocations i _ := rfl
  releases i _ := rfl
  others i _ := rfl

theorem of_ledger_eq (handed : HandedOut owner nodes before between)
    (ledgers : ∀ i, after.ledger i = between.ledger i) : HandedOut owner nodes before after where
  live i on := by
    rw [ledgers]
    exact handed.live i on
  budget i on := by
    rw [ledgers]
    exact handed.budget i on
  allocations i on := by
    rw [ledgers]
    exact handed.allocations i on
  releases i on := by
    rw [ledgers]
    exact handed.releases i on
  others i off := by
    rw [ledgers]
    exact handed.others i off

theorem cons {demand : Demand} {value : Int64}
    (granted : Node.allocate demand owner value before = (.ok node, between))
    (rest : HandedOut owner nodes between after) :
    HandedOut owner (nodes ++ [node]) before after := by
  obtain ⟨entered, asked, rfl⟩ := Node.granted_of_allocate granted
  have taken := Store.takesIn_of_ok owner.path_nodup asked
  have positive := (recordLayout_proper (π := π) owner).2
  have here := taken.taken
  refine ⟨fun i on addr => ?_, fun i on => ?_, fun i on => ?_, fun i on => ?_, fun i off => ?_⟩
  · rw [rest.live i on, Store.ledger_emit, (here i on).live, List.map_append, List.map_singleton]
    by_cases later : addr ∈ nodes.map Node.addr
    · rw [if_pos later, if_pos (List.mem_append_left _ later)]
    · simp only [later, positive, List.mem_append, List.mem_singleton, ↓reduceIte, false_or, ne_eq,
        not_false_eq_true, and_true, eq_comm]
  · rw [List.length_append, List.length_singleton, Nat.add_comm]
    exact (here i on).budget.add (rest.budget i on)
  · rw [rest.allocations i on, Store.ledger_emit, (here i on).allocations, List.length_append,
      List.length_singleton, Nat.add_assoc, Nat.add_comm 1]
  · rw [rest.releases i on, Store.ledger_emit, (here i on).releases]
  · rw [rest.others i off, Store.ledger_emit, taken.others i off]

/-- Once the nodes are given back, nothing is left of them but in the counts and the budgets. -/
theorem takenBack (handed : HandedOut owner nodes before between)
    (given : GivenBack nodes between after) (owned : ∀ node ∈ nodes, node.owner = owner)
    (free : ∀ node ∈ nodes, ∀ i ∈ owner.path, (before.ledger i).live[node.addr]? = none) :
    TakenBack owner nodes.length before after := by
  have live : ∀ i ∈ owner.path, ∀ addr : Nat,
      (after.ledger i).live[addr]? = (before.ledger i).live[addr]? := by
    intro i on addr
    by_cases among : addr ∈ nodes.map Node.addr
    · obtain ⟨node, member, rfl⟩ := List.mem_map.1 among
      rw [free node member i on]
      exact given.gone node member i (owned node member ▸ on)
    · have apart : ∀ node ∈ nodes, i ∈ node.owner.path → node.addr ≠ addr :=
        fun node member _ same => among (List.mem_map.2 ⟨node, member, same⟩)
      rw [given.kept i addr apart, handed.live i on, if_neg among]
  refine ⟨fun i on => Std.ExtTreeMap.ext_getElem? fun {addr} => live i on addr, fun i on => ?_,
    fun i on => ?_, fun i on => ?_, fun i off => ?_⟩
  · rw [given.budget]
    exact handed.budget i on
  · rw [given.allocations, handed.allocations i on]
  · rw [given.releases, handed.releases i on, Tail.countP_path owned on]
  · rw [given.ledger_eq fun node member => owned node member ▸ off, handed.others i off]

end HandedOut

namespace Allocated

variable {demand : Demand} {owner : Handle T} {pending more : List Int64} {nodes built : Tail T}
  {before after : Store T π}

theorem handedOut (allocated : Allocated demand owner pending nodes before after) :
    HandedOut owner nodes before after := by
  induction allocated with
  | nil => exact .nil owner _
  | cons granted _ ih => exact .cons granted ih

theorem events (allocated : Allocated demand owner pending nodes before after) :
    after.events =
      before.events ++ nodes.reverse.map fun node => .nodeAllocated node.value node.addr := by
  induction allocated with
  | nil => exact (List.append_nil _).symm
  | cons granted _ ih =>
    rw [ih, Node.events_of_allocate granted, List.reverse_append, List.reverse_singleton,
      List.map_append, List.map_singleton, List.append_assoc]

theorem stands (allocated : Allocated demand owner pending nodes before after)
    (stands : Stands built owner before) : Stands (nodes ++ built) owner after := by
  induction allocated generalizing built with
  | nil => exact stands
  | cons granted _ ih =>
    rw [List.append_assoc, List.singleton_append]
    exact ih (stands.allocate granted)

theorem stands_alone (allocated : Allocated demand owner pending nodes before after) :
    Stands nodes owner after := by
  have stands := allocated.stands (.nil owner before)
  rwa [List.append_nil] at stands

/-- A build that has got so far goes on with the values that are left. -/
theorem buildOnto (allocated : Allocated demand owner pending nodes before after) (total : Nat)
    (more : List Int64) (built : Tail T) :
    Chain.buildOnto demand owner total (pending ++ more) built before =
      Chain.buildOnto demand owner total more (nodes ++ built) after := by
  induction allocated generalizing built with
  | nil => rfl
  | cons granted _ ih =>
    rw [List.append_assoc, List.singleton_append, ← ih]
    simp only [List.cons_append, Chain.buildOnto, granted]

variable {memory : Memory T} {rest : Multiset (Nat × Record T)}

/-- The same in a memory in which the addresses of the new records are free. -/
theorem depot_buildOnto (allocated : Allocated demand owner pending nodes before after)
    (total : Nat) (more : List Int64) (holds : memory.Holds (built.records + rest))
    (apart : (nodes.map Node.addr).Nodup) (free : ∀ node ∈ nodes, memory.get? node.addr = none) :
    ∃ left, left.Holds ((nodes ++ built).records + rest) ∧
      (⟨before, memory⟩ : Depot T π).buildOnto demand owner total (pending ++ more) built.length
          built.link =
        (⟨after, left⟩ : Depot T π).buildOnto demand owner total more (nodes ++ built).length
          (Tail.link (nodes ++ built)) := by
  induction allocated generalizing built memory with
  | nil => exact ⟨memory, holds, rfl⟩
  | @cons value pending node nodes _ _ _ granted _ ih =>
    obtain ⟨apart, -, differs⟩ := List.nodup_append'.1 (List.map_append ▸ apart)
    obtain ⟨further, here⟩ := List.forall_mem_append.1 free
    obtain ⟨left, pushed, held⟩ :=
      Depot.pushOnto_of_free holds (here node List.mem_cons_self) granted
    -- The new record stands at an address of its own, so those of the later ones stay free.
    have one_more := held
    rw [Tail.records_cons, Multiset.cons_add, ← Multiset.singleton_add] at one_more
    have still : ∀ other ∈ nodes, left.get? other.addr = none := by
      intro other member
      have away : other.addr ≠ node.addr := fun same =>
        differs (List.mem_map_of_mem member) (List.mem_singleton.2 same)
      rw [holds.get?_of_add one_more (by simpa using away), further other member]
    obtain ⟨final, holds', going_on⟩ := ih held apart still
    rw [List.append_assoc, List.singleton_append]
    refine ⟨final, holds', ?_⟩
    rw [← going_on, List.cons_append, Depot.buildOnto, pushed]
    rfl

/-- A build of records comes to what a build of nodes comes to, unless a record stands at the
address of a new one. -/
theorem build_outcome (allocated : Allocated demand owner pending nodes before after) (total : Nat)
    (stopped : ∀ value ∈ more.head?, ∃ failure left,
      Node.allocate demand owner value after = (.error failure, left))
    (apart : (nodes.map Node.addr).Nodup) (holds : memory.Holds (built.records + rest)) :
    Outcome (∃ node ∈ nodes, memory.get? node.addr ≠ none)
      (Depot.Built rest (Chain.buildOnto demand owner total (pending ++ more) built before))
      ((⟨before, memory⟩ : Depot T π).buildOnto demand owner total (pending ++ more) built.length
        built.link) := by
  by_cases taken : ∃ node ∈ nodes, memory.get? node.addr ≠ none
  · exact Depot.buildOnto_outcome holds (Or.inl taken)
  · have free : ∀ node ∈ nodes, memory.get? node.addr = none := fun node member =>
      Decidable.byContradiction fun found => taken ⟨node, member, found⟩
    obtain ⟨left, held, going_on⟩ := allocated.depot_buildOnto total more holds apart free
    rw [allocated.buildOnto, going_on]
    cases more with
    | nil => exact .ok ⟨rfl, rfl, held⟩
    | cons value more =>
      obtain ⟨failure, cut, failed⟩ := stopped value rfl
      exact Depot.buildOnto_of_error held failed

end Allocated

end ChainLedger
