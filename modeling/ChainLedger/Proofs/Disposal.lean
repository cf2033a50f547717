import ChainLedger.Proofs.History
import ChainLedger.Proofs.Refinement

set_option autoImplicit false

namespace ChainLedger

variable {T : Layering} {π : Type}

/-- A machine that has another store and another list under one name, and is the same otherwise. -/
structure Machine.Becomes (name : String) (register : Option (Register T)) (store : Store T π)
    (before after : Machine T π) : Prop where
  represented : ∃ session : Session T π, Represents 0 after session
  store : after.store = store
  view : after.view name = .ok register
  others : ∀ other, other ≠ name → after.view other = before.view other

theorem Machine.Becomes.trans {name : String} {first second : Option (Register T)}
    {between last : Store T π} {machine middle after : Machine T π}
    (earlier : machine.Becomes name first between middle)
    (later : middle.Becomes name second last after) : machine.Becomes name second last after where
  represented := later.represented
  store := later.store
  view := later.view
  others other differs := (later.others other differs).trans (earlier.others other differs)

theorem Represents.becomes {machine after : Machine T π} {session : Session T π} {name : String}
    {register : Option (Register T)} {store : Store T π} {registers : Registers T}
    (represents : Represents 0 machine session) (onward : Represents 0 after ⟨store, registers⟩)
    (here : registers.get? name = register)
    (others : ∀ other, other ≠ name → registers.get? other = session.registers.get? other) :
    machine.Becomes name register store after where
  represented := ⟨_, onward⟩
  store := onward.store
  view := (onward.view_eq name).trans (congrArg Except.ok here)
  others other differs := by
    rw [onward.view_eq, represents.view_eq]
    exact congrArg Except.ok (others other differs)

theorem Represents.performs {result : Except Hazard (Reply T × Machine T π)}
    {machine : Machine T π} {session : Session T π} {name : String} {reply : Reply T}
    {store : Store T π} {registers : Registers T} {register : Option (Register T)}
    (represents : Represents 0 machine session)
    (outcome : Outcome False (Matches (reply, ⟨store, registers⟩)) result)
    (lasting : reply.isAbort = false) (here : registers.get? name = register)
    (others : ∀ other, other ≠ name → registers.get? other = session.registers.get? other) :
    ∃ after, result = .ok (reply, after) ∧ machine.Becomes name register store after := by
  obtain ⟨⟨answer, after⟩, rfl, matched⟩ := outcome.exists_ok
  obtain ⟨rfl, -, kept⟩ := matched
  exact ⟨after, rfl, represents.becomes (kept lasting) here others⟩

theorem Represents.performs_put {result : Except Hazard (Reply T × Machine T π)}
    {machine : Machine T π} {session : Session T π} {name : String} {reply : Reply T}
    {store : Store T π} {registers : Registers T} {register : Register T}
    (represents : Represents 0 machine session)
    (outcome : Outcome False (Matches (reply, ⟨store, registers.put name register⟩)) result)
    (lasting : reply.isAbort = false)
    (others : ∀ other, other ≠ name → registers.get? other = session.registers.get? other) :
    ∃ after, result = .ok (reply, after) ∧ machine.Becomes name (some register) store after := by
  refine represents.performs outcome lasting ?_ fun other differs => ?_
  · rw [Directory.get?_put, if_pos rfl]
  · rw [Directory.get?_put, if_neg differs.symm, others other differs]

theorem Represents.performs_erase {result : Except Hazard (Reply T × Machine T π)}
    {machine : Machine T π} {session : Session T π} {name : String} {reply : Reply T}
    {store : Store T π} (represents : Represents 0 machine session)
    (outcome : Outcome False (Matches (reply, ⟨store, session.registers.erase name⟩)) result)
    (lasting : reply.isAbort = false) :
    ∃ after, result = .ok (reply, after) ∧ machine.Becomes name none store after := by
  refine represents.performs outcome lasting ?_ fun other differs => ?_
  · rw [Directory.get?_erase, if_pos rfl]
  · rw [Directory.get?_erase, if_neg differs.symm]

theorem Represents.found_register {machine : Machine T π} {session : Session T π} {name : String}
    {register : Option (Register T)} (represents : Represents 0 machine session)
    (found : machine.view name = .ok register) : session.registers.get? name = register := by
  rw [represents.view_eq] at found
  exact Except.ok.inj found

theorem Represents.addrs_nodup {machine : Machine T π} {session : Session T π}
    (represents : Represents 0 machine session) {name : String}
    {register : Register T} (found : machine.view name = .ok (some register)) :
    (register.nodes.map Node.addr).Nodup := by
  have unrepeated := represents.shows.unrepeated name
  have listed : session.lists name = some register := represents.found_register found
  rwa [Lists.nodes, listed] at unrepeated

/-- How a ledger takes the return of a block depends on what is on record of this block alone. -/
theorem Ledger.strike_congr {first second : Ledger} {addr : Nat} (layout : Layout)
    (live : first.live[addr]? = second.live[addr]?) :
    (first.strike addr layout).1 = (second.strike addr layout).1 := by
  simp only [strike, live]
  split
  · rfl
  · split
    · rfl
    · split <;> rfl

namespace Store

variable {first second : Store T π} {addr : Nat} {path : List (Fin T.size)}

theorem comesBy_congr (i : Fin T.size) (layout : Layout)
    (live : ∀ j, (first.ledger j).live[addr]? = (second.ledger j).live[addr]?) :
    comesBy i addr layout path first = comesBy i addr layout path second := by
  induction path with
  | nil => rfl
  | cons j inner ih => rw [comesBy, comesBy, ih, Ledger.strike_congr layout (live j)]

variable [Parent π]

/-- How a return ends depends on what the ledgers on its path have on record of the block. -/
theorem deallocateAlong_congr (layout : Layout) (apart : path.Nodup)
    (live : ∀ j ∈ path, (first.ledger j).live[addr]? = (second.ledger j).live[addr]?) :
    (deallocateAlong addr layout path first).1 = (deallocateAlong addr layout path second).1 := by
  induction path generalizing first second with
  | nil => rfl
  | cons j inner ih =>
    obtain ⟨off, apart⟩ := List.nodup_cons.1 apart
    have here := Ledger.strike_congr layout (live j List.mem_cons_self)
    rcases struck : (first.ledger j).strike addr layout with ⟨found, left⟩
    rcases struck' : (second.ledger j).strike addr layout with ⟨found', left'⟩
    rw [struck, struck'] at here
    obtain rfl : found = found' := here
    cases found with
    | some fault => rw [deallocateAlong, deallocateAlong, struck, struck']
    | none =>
      rw [deallocateAlong, deallocateAlong, struck, struck']
      apply ih apart
      intro k on
      have differs : j ≠ k := fun same => off (same ▸ on)
      rw [ledger_withLedger, ledger_withLedger, if_neg differs, if_neg differs]
      exact live k (List.mem_cons_of_mem _ on)

end Store

variable [Parent π]

namespace Node

/-- Whether the release of a node comes by ledger `i`. -/
def comesBy (i : Fin T.size) (node : Node T) (store : Store T π) : Bool :=
  Store.comesBy i node.addr (recordLayout π node.owner) node.owner.path store

variable (node other : Node T) (store : Store T π) (i : Fin T.size)

theorem ledger_free_eq : (node.free store).2.ledger i =
    if node.comesBy i store then
      ((store.ledger i).strike node.addr (recordLayout π node.owner)).2
    else store.ledger i := by
  have same : Store.comesBy i node.addr (recordLayout π node.owner) node.owner.path
      (store.emit (.nodeReleased node.value node.addr)) = node.comesBy i store :=
    Store.comesBy_congr i _ fun _ => rfl
  rw [← same]
  exact Store.ledger_deallocateAlong _ _ _ node.owner.path_nodup _

theorem live_free (addr : Nat) : ((node.free store).2.ledger i).live[addr]? =
    if node.comesBy i store ∧ node.addr = addr then none
    else (store.ledger i).live[addr]? := by
  have positive := (recordLayout_proper (π := π) node.owner).2
  rw [ledger_free_eq]
  cases node.comesBy i store with
  | false => simp only [Bool.false_eq_true, ↓reduceIte, false_and]
  | true => simp only [↓reduceIte, Ledger.live_strike, positive, ne_eq, not_false_eq_true,
      and_true, true_and]

theorem live_free_of_ne {addr : Nat} (differs : node.addr ≠ addr) :
    ((node.free store).2.ledger i).live[addr]? = (store.ledger i).live[addr]? := by
  rw [live_free, if_neg fun both => differs both.2]

theorem releases_free : ((node.free store).2.ledger i).releases =
    (store.ledger i).releases +
      if node.comesBy i store ∧
        ((store.ledger i).strike node.addr (recordLayout π node.owner)).1 = none
      then 1 else 0 := by
  rw [ledger_free_eq]
  cases node.comesBy i store with
  | false => simp only [Bool.false_eq_true, ↓reduceIte, false_and, Nat.add_zero]
  | true => simp only [↓reduceIte, Ledger.releases_strike, true_and]

theorem allocations_free :
    ((node.free store).2.ledger i).allocations = (store.ledger i).allocations := by
  rw [ledger_free_eq]
  split
  · exact Ledger.allocations_strike _ _ _
  · rfl

variable {node other store}

/-- A release that ends in a fault stops at the level that found it. -/
theorem ledger_free_of_fault {fault : Fault} (failed : (node.free store).1 = some fault) :
    ∃ passed i behind, node.owner.path = passed ++ i :: behind ∧
      (node.free store).2.parent = store.parent ∧
      (∀ j ∈ passed,
        ((store.ledger j).strike node.addr (recordLayout π node.owner)).1 = none) ∧
      ((store.ledger i).strike node.addr (recordLayout π node.owner)).1 = some fault ∧
      ∀ j, (node.free store).2.ledger j = if j ∈ passed ++ [i] then
        ((store.ledger j).strike node.addr (recordLayout π node.owner)).2 else store.ledger j := by
  have ended : Store.deallocateAlong node.addr (recordLayout π node.owner) node.owner.path
      (store.emit (.nodeReleased node.value node.addr)) = (some fault, (node.free store).2) :=
    Prod.ext failed rfl
  have stopped := Store.deallocateAlong_fault node.owner.path_nodup ended
  exact stopped

theorem free_congr {first second : Store T π}
    (live : ∀ i, (first.ledger i).live[node.addr]? = (second.ledger i).live[node.addr]?) :
    (node.free first).1 = (node.free second).1 :=
  Store.deallocateAlong_congr _ node.owner.path_nodup fun i _ => live i

/-- A release does not decide how that of a node at another address ends. -/
theorem free_free (differs : node.addr ≠ other.addr) :
    (other.free (node.free store).2).1 = (other.free store).1 :=
  free_congr fun i => node.live_free_of_ne store i differs

end Node

/-- Nodes have been given back: each is struck from the ledger that it came from and from every one
below, and nothing else has changed in the books. -/
structure GivenBack (nodes : Tail T) (before after : Store T π) : Prop where
  gone : ∀ node ∈ nodes, ∀ i ∈ node.owner.path, (after.ledger i).live[node.addr]? = none
  kept : ∀ i (addr : Nat), (∀ node ∈ nodes, i ∈ node.owner.path → node.addr ≠ addr) →
    (after.ledger i).live[addr]? = (before.ledger i).live[addr]?
  releases : ∀ i, (after.ledger i).releases =
    (before.ledger i).releases + nodes.countP fun node => i ∈ node.owner.path
  allocations : ∀ i, (after.ledger i).allocations = (before.ledger i).allocations
  budget : ∀ i, (after.ledger i).budget = (before.ledger i).budget
  parent : after.parent = nodes.foldl
    (fun parent node => Parent.deallocate node.addr (recordLayout π node.owner) parent)
    before.parent

namespace GivenBack

variable {before between after : Store T π} {nodes front back : Tail T} {node other : Node T}

theorem nil (store : Store T π) : GivenBack [] store store where
  gone := List.forall_mem_nil _
  kept _ _ _ := rfl
  releases _ := rfl
  allocations _ := rfl
  budget _ := rfl
  parent := rfl

theorem append (first : GivenBack front before between) (rest : GivenBack back between after) :
    GivenBack (front ++ back) before after where
  gone node member i on := by
    -- The address may have been given back once more, by one of the nodes behind.
    by_cases again : ∃ later ∈ back, i ∈ later.owner.path ∧ later.addr = node.addr
    · obtain ⟨later, inside, passes, same⟩ := again
      rw [← same]
      exact rest.gone later inside i passes
    · have still := rest.kept i node.addr fun later inside passes same =>
        again ⟨later, inside, passes, same⟩
      rcases List.mem_append.1 member with inside | inside
      · rw [still]
        exact first.gone node inside i on
      · exact rest.gone node inside i on
  kept i addr apart := by
    rw [rest.kept i addr fun node inside => apart node (List.mem_append_right _ inside),
      first.kept i addr fun node inside => apart node (List.mem_append_left _ inside)]
  releases i := by
    rw [rest.releases, first.releases, List.countP_append, Nat.add_assoc]
  allocations i := (rest.allocations i).trans (first.allocations i)
  budget i := (rest.budget i).trans (first.budget i)
  parent := by rw [rest.parent, first.parent, List.foldl_append]

theorem of_free (accepted : (node.free before).1 = none) :
    GivenBack [node] before (node.free before).2 := by
  obtain ⟨every, ledgers⟩ := Node.ledger_free accepted
  have positive := (recordLayout_proper (π := π) node.owner).2
  refine ⟨?_, fun i addr apart => ?_, fun i => ?_, fun i => node.allocations_free before i,
    fun i => node.budget_free before i, ?_⟩
  · rintro _ (_ | ⟨_, ⟨⟩⟩) i on
    rw [ledgers, if_pos on, Ledger.live_strike, if_pos ⟨rfl, positive⟩]
  · rw [ledgers]
    by_cases on : i ∈ node.owner.path
    · have differs := apart node List.mem_cons_self on
      rw [if_pos on, Ledger.live_strike, if_neg fun both => differs both.1]
    · rw [if_neg on]
  · rw [ledgers, List.countP_singleton]
    by_cases on : i ∈ node.owner.path
    · simp only [on, ↓reduceIte, Ledger.releases_strike, every i on, decide_true]
    · simp only [on, ↓reduceIte, decide_false, Bool.false_eq_true, Nat.add_zero]
  · have noted : ∀ i ∈ node.owner.path, (((before.emit
        (.nodeReleased node.value node.addr)).ledger i).strike node.addr
          (recordLayout π node.owner)).1 = none := every
    exact (Store.deallocateAlong_accepted node.owner.path_nodup noted).2.1

/-- How the release of a node ends is the same once nodes at other addresses are given back. -/
theorem free_eq (given : GivenBack nodes before after)
    (apart : ∀ node ∈ nodes, node.addr ≠ other.addr) :
    (other.free after).1 = (other.free before).1 :=
  Node.free_congr fun i => given.kept i other.addr fun node member _ => apart node member

/-- A release that ends in a fault changes the same before and after nodes at other addresses are
given back. -/
theorem free {fault : Fault} (given : GivenBack nodes before after)
    (apart : ∀ node ∈ nodes, node.addr ≠ other.addr) (failed : (other.free before).1 = some fault) :
    GivenBack nodes (other.free before).2 (other.free after).2 := by
  have live : ∀ i, (after.ledger i).live[other.addr]? = (before.ledger i).live[other.addr]? :=
    fun i => given.kept i other.addr fun node member _ => apart node member
  have comes : ∀ i, other.comesBy i after = other.comesBy i before :=
    fun i => Store.comesBy_congr i _ live
  refine ⟨fun node member i on => ?_, fun i addr kept => ?_, fun i => ?_, fun i => ?_, fun i => ?_,
    ?_⟩
  · rw [other.live_free_of_ne after i (apart node member).symm]
    exact given.gone node member i on
  · rw [Node.live_free, Node.live_free, comes, given.kept i addr kept]
  · rw [Node.releases_free, Node.releases_free, comes, Ledger.strike_congr _ (live i),
      given.releases]
    omega
  · rw [Node.allocations_free, Node.allocations_free, given.allocations]
  · rw [Node.budget_free, Node.budget_free, given.budget]
  · have failed' := (given.free_eq apart).trans failed
    obtain ⟨_, _, _, _, parent, _⟩ := Node.ledger_free_of_fault failed
    obtain ⟨_, _, _, _, parent', _⟩ := Node.ledger_free_of_fault failed'
    rw [parent, parent', given.parent]

end GivenBack

/-- A release has ended in a fault at ledger `i`, behind the ledgers `passed`. These have struck the
node and counted the release; in ledger `i` the node is struck too, and nothing else has changed. -/
structure RejectedAt (passed : List (Fin T.size)) (i : Fin T.size) (bad : Node T) (fault : Fault)
    (before after : Store T π) : Prop where
  accepted : ∀ j ∈ passed,
    ((before.ledger j).strike bad.addr (recordLayout π bad.owner)).1 = none
  found : ((before.ledger i).strike bad.addr (recordLayout π bad.owner)).1 = some fault
  live : ∀ j (addr : Nat), (after.ledger j).live[addr]? =
    if j ∈ passed ++ [i] ∧ bad.addr = addr then none else (before.ledger j).live[addr]?
  releases : ∀ j, (after.ledger j).releases =
    (before.ledger j).releases + if j ∈ passed then 1 else 0
  allocations : ∀ j, (after.ledger j).allocations = (before.ledger j).allocations
  budget : ∀ j, (after.ledger j).budget = (before.ledger j).budget
  parent : after.parent = before.parent

theorem Node.rejectedAt_free {bad : Node T} {fault : Fault} {store : Store T π}
    (failed : (bad.free store).1 = some fault) :
    ∃ passed i behind, bad.owner.path = passed ++ i :: behind ∧
      RejectedAt passed i bad fault store (bad.free store).2 := by
  obtain ⟨passed, i, behind, shape, parent, accepted, found, ledgers⟩ :=
    Node.ledger_free_of_fault failed
  have positive := (recordLayout_proper (π := π) bad.owner).2
  have off : i ∉ passed := by
    intro on
    rw [accepted i on] at found
    cases found
  refine ⟨passed, i, behind, shape, accepted, found, fun j addr => ?_, fun j => ?_,
    bad.allocations_free store, bad.budget_free store, parent⟩
  · rw [ledgers]
    by_cases on : j ∈ passed ++ [i]
    · simp only [on, ↓reduceIte, Ledger.live_strike, positive, ne_eq, not_false_eq_true, and_true,
        true_and]
    · simp only [on, ↓reduceIte, false_and]
  · simp only [ledgers, List.mem_append, List.mem_singleton]
    by_cases on : j ∈ passed
    · simp only [on, true_or, ↓reduceIte, Ledger.releases_strike, accepted j on]
    · by_cases here : j = i
      · subst here
        simp only [off, or_true, ↓reduceIte, Ledger.releases_strike, found, reduceCtorEq]
      · simp only [on, here, or_self, ↓reduceIte, Nat.add_zero]

namespace Tail

/-- Frees nodes up to the first whose release ends in a fault, and hands on what is behind it. -/
def freeUntilFault : Tail T → Store T π → Option (Fault × Tail T) × Store T π
  | [], store => (none, store)
  | node :: rest, store =>
      match node.free store with
      | (none, store) => freeUntilFault rest store
      | (some fault, store) => (some (fault, rest), store)

/-- A fault leaves the nodes behind it without an owner, and while it is on its way out they are
freed in their turn. There is no way out for a second one. -/
def unwind (tail : Tail T) (store : Store T π) : Option (Option Fault × Store T π) :=
  match tail.freeUntilFault store with
  | (none, store) => some (none, store)
  | (some (fault, rest), store) =>
      match rest.freeUntilFault store with
      | (none, store) => some (some fault, store)
      | (some _, _) => none

variable {nodes front back : Tail T} {bad : Node T} {store : Store T π}

theorem freeUntilFault_of_quiet (quiet : (discard nodes store).1 = none) :
    freeUntilFault nodes store = (none, (discard nodes store).2) := by
  induction nodes generalizing store with
  | nil => rfl
  | cons node rest ih =>
    rw [discard_cons] at quiet ⊢
    obtain ⟨here, behind⟩ := Option.or_eq_none_iff.1 quiet
    rcases freed : node.free store with ⟨_ | fault, after⟩
    · rw [freed] at behind
      simp only [freeUntilFault, freed]
      exact ih behind
    · rw [freed] at here
      cases here

theorem unwind_of_quiet (quiet : (discard nodes store).1 = none) :
    unwind nodes store = some (none, (discard nodes store).2) := by
  rw [unwind, freeUntilFault_of_quiet quiet]

theorem freeUntilFault_of_bad {fault : Fault} (quiet : (discard front store).1 = none)
    (failed : (bad.free (discard front store).2).1 = some fault) :
    freeUntilFault (front ++ bad :: back) store =
      (some (fault, back), (bad.free (discard front store).2).2) := by
  induction front generalizing store with
  | nil =>
    rcases freed : bad.free store with ⟨_ | found, after⟩
    · rw [discard_nil, freed] at failed
      cases failed
    · rw [discard_nil, freed] at failed
      obtain rfl : found = fault := Option.some.inj failed
      simp only [List.nil_append, freeUntilFault, discard_nil, freed]
  | cons node rest ih =>
    rw [discard_cons] at quiet failed ⊢
    obtain ⟨here, behind⟩ := Option.or_eq_none_iff.1 quiet
    rcases freed : node.free store with ⟨_ | found, after⟩
    · rw [freed] at behind failed
      simp only [List.cons_append, freeUntilFault, freed]
      exact ih behind failed
    · rw [freed] at here
      cases here

/-- Behind the first node the releases end as they would have ended before it was freed. -/
theorem free_behind {node : Node T} {rest : Tail T}
    (apart : ((node :: rest).map Node.addr).Nodup) (store : Store T π) :
    ∀ other ∈ rest, (other.free (node.free store).2).1 = (other.free store).1 := by
  intro other member
  obtain ⟨off, -⟩ := List.nodup_cons.1 apart
  refine Node.free_free fun same => off ?_
  rw [same]
  exact List.mem_map_of_mem member

/-- Nodes at addresses of their own whose releases are accepted are all given back. -/
theorem givenBack_discard (apart : (nodes.map Node.addr).Nodup)
    (accepted : ∀ node ∈ nodes, (node.free store).1 = none) :
    (discard nodes store).1 = none ∧ GivenBack nodes store (discard nodes store).2 := by
  induction nodes generalizing store with
  | nil => exact ⟨rfl, .nil store⟩
  | cons node rest ih =>
    obtain ⟨here, others⟩ := List.forall_mem_cons.1 accepted
    have behind : ∀ other ∈ rest, (other.free (node.free store).2).1 = none := by
      intro other member
      rw [free_behind apart store other member]
      exact others other member
    obtain ⟨quiet, given⟩ := ih (List.nodup_cons.1 apart).2 behind
    rw [discard_cons, here]
    exact ⟨quiet, (GivenBack.of_free here).append given⟩

/-- One node whose release ends in a fault does not keep the others from being given back. -/
theorem givenBack_discard_of_bad {fault : Fault}
    (apart : ((front ++ bad :: back).map Node.addr).Nodup)
    (failed : (bad.free store).1 = some fault)
    (accepted : ∀ node ∈ front ++ back, (node.free store).1 = none) :
    (discard (front ++ bad :: back) store).1 = some fault ∧
      unwind (front ++ bad :: back) store =
        some (some fault, (discard (front ++ bad :: back) store).2) ∧
      GivenBack (front ++ back) (bad.free store).2 (discard (front ++ bad :: back) store).2 := by
  rw [List.map_append, List.map_cons, List.nodup_append] at apart
  obtain ⟨apart_front, apart_behind, apart⟩ := apart
  have beside : ∀ node ∈ front, ∀ other ∈ bad :: back, node.addr ≠ other.addr :=
    fun node inside other behind => apart _ (List.mem_map_of_mem inside) _
      (List.mem_map_of_mem behind)
  obtain ⟨quiet_front, given_front⟩ := givenBack_discard apart_front fun node inside =>
    accepted node (List.mem_append_left _ inside)
  have off_bad : ∀ node ∈ front, node.addr ≠ bad.addr := fun node inside =>
    beside node inside bad List.mem_cons_self
  have failed_then : (bad.free (discard front store).2).1 = some fault :=
    (given_front.free_eq off_bad).trans failed
  -- Neither the nodes in front nor what the bad one has changed concern the addresses behind it.
  have accepted_behind : ∀ node ∈ back,
      (node.free (bad.free (discard front store).2).2).1 = none := by
    intro node inside
    rw [free_behind apart_behind _ node inside, given_front.free_eq fun other member =>
      beside other member node (List.mem_cons_of_mem _ inside)]
    exact accepted node (List.mem_append_right _ inside)
  obtain ⟨quiet_back, given_back⟩ :=
    givenBack_discard (List.nodup_cons.1 apart_behind).2 accepted_behind
  have looped : freeUntilFault (front ++ bad :: back) store = _ :=
    freeUntilFault_of_bad quiet_front failed_then
  rw [discard_append, discard_cons, quiet_front, failed_then, Option.none_or, Option.some_or]
  refine ⟨rfl, ?_, (given_front.free off_bad failed).append given_back⟩
  simp only [unwind, looped, freeUntilFault_of_quiet quiet_back]

end Tail

theorem Session.put_vacant (session : Session T π) {name : String}
    (vacant : session.registers.get? name = none) (register : Register T) :
    session.put name register =
      (none, { session with registers := session.registers.put name register }) := by
  simp only [put, Session.nodes, Registers.nodes, vacant, discard, Tail.discard_nil]

/-- The list under a name has been dropped: it is gone, the release of every node is written down,
front to back, and no second fault has come up while the first was on its way out. -/
structure Machine.Dropped (name : String) (nodes : Tail T) (fault : Option Fault)
    (before after : Machine T π) : Prop where
  becomes : before.Becomes name none after.store after
  events : after.store.events =
    before.store.events ++ nodes.map fun node => .nodeReleased node.value node.addr
  unwound : nodes.unwind before.store = some (fault, after.store)

namespace Represents

variable {machine : Machine T π} {session : Session T π} {name : String} {register : Register T}

theorem perform_drop (represents : Represents 0 machine session)
    (found : machine.view name = .ok (some register)) :
    ∃ after, machine.perform (.drop name) = .ok
        (Reply.orFault (.answer (.truth true)) (Tail.discard register.nodes machine.store).1,
          after) ∧
      machine.Becomes name none (Tail.discard register.nodes machine.store).2 after := by
  replace found := represents.found_register found
  have store : machine.store = session.store := represents.store
  have expected : session.drop name =
      (Reply.orFault (.answer (.truth true)) (Tail.discard register.nodes session.store).1,
        ⟨(Tail.discard register.nodes session.store).2, session.registers.erase name⟩) := by
    simp only [Session.drop, Session.take, Session.nodes, Registers.nodes, found, Session.discard,
      Session.conclude, Option.isSome_some]
  rw [store]
  refine represents.performs_erase (expected ▸ represents.drop_outcome name) ?_
  cases (Tail.discard register.nodes session.store).1 <;> rfl

theorem dropped (represents : Represents 0 machine session)
    (found : machine.view name = .ok (some register)) {fault : Option Fault}
    (ends : (Tail.discard register.nodes machine.store).1 = fault)
    (unwound : register.nodes.unwind machine.store =
      some (fault, (Tail.discard register.nodes machine.store).2)) :
    ∃ after, machine.perform (.drop name) =
        .ok (Reply.orFault (.answer (.truth true)) fault, after) ∧
      after.store = (Tail.discard register.nodes machine.store).2 ∧
      machine.Dropped name register.nodes fault after := by
  obtain ⟨after, performed, becomes⟩ := represents.perform_drop found
  have store := becomes.store
  refine ⟨after, ends ▸ performed, store, store ▸ becomes, ?_, ?_⟩
  · rw [store, Tail.events_discard]
  · rw [store, unwound]

/-- What a list leaves behind that is dropped. If every node's release is accepted, all nodes are
given back. If one node's release ends in a fault, in front of, behind or between others that are
accepted, the drop ends in this fault, all the others are given back, and of the one itself there is
what its own release has changed. -/
theorem givesBack_drop (represents : Represents 0 machine session)
    (found : machine.view name = .ok (some register)) :
    ((∀ node ∈ register.nodes, (node.free machine.store).1 = none) →
      ∃ after, machine.perform (.drop name) = .ok (.answer (.truth true), after) ∧
        machine.Dropped name register.nodes none after ∧
        GivenBack register.nodes machine.store after.store) ∧
    ∀ front bad back fault, register.nodes = front ++ bad :: back →
      (bad.free machine.store).1 = some fault →
      (∀ node ∈ front ++ back, (node.free machine.store).1 = none) →
      ∃ after passed i behind, machine.perform (.drop name) = .ok (.failed (.fault fault), after) ∧
        machine.Dropped name register.nodes (some fault) after ∧
        bad.owner.path = passed ++ i :: behind ∧
        RejectedAt passed i bad fault machine.store (bad.free machine.store).2 ∧
        GivenBack (front ++ back) (bad.free machine.store).2 after.store := by
  have apart := represents.addrs_nodup found
  refine ⟨fun accepted => ?_, fun front bad back fault shape failed accepted => ?_⟩
  · obtain ⟨quiet, given⟩ := Tail.givenBack_discard apart accepted
    obtain ⟨after, performed, store, done⟩ :=
      represents.dropped found quiet (Tail.unwind_of_quiet quiet)
    exact ⟨after, performed, done, store ▸ given⟩
  · rw [shape] at apart
    obtain ⟨ended, unwound, given⟩ := Tail.givenBack_discard_of_bad apart failed accepted
    rw [← shape] at ended unwound given
    obtain ⟨passed, i, behind, path, rejected⟩ := Node.rejectedAt_free failed
    obtain ⟨after, performed, store, done⟩ := represents.dropped found ended unwound
    exact ⟨after, passed, i, behind, performed, done, path, rejected, store ▸ given⟩

/-- A list of nodes of two ledgers, one of which has been given back to the ledger below behind the
list's back. -/
theorem givesBack_drop_fork :
    let before : List (Op .fork Arena) := [.chain "list" .attempt (some (1 : Fin 3)) [1, 2],
      .chain "more" .insist (some (2 : Fin 3)) [3, 4], .link "list" 1 (some "more") none,
      .deallocate (0 : Fin 3) 4168 ⟨24, 8⟩]
    let front : Tail .fork := [⟨4120, 1, some (1 : Fin 3)⟩, ⟨4096, 2, some (1 : Fin 3)⟩]
    let bad : Node .fork := ⟨4168, 3, some (2 : Fin 3)⟩
    let back : Tail .fork := [⟨4144, 4, some (2 : Fin 3)⟩]
    let start : Machine .fork Arena := Machine.opened (.opened (fun _ => none) (.ofCapacity 4096))
    ∃ given machine after, Machine.performAll before start = .ok (given, machine) ∧
      machine.view "list" = .ok (some (.chain ⟨front ++ bad :: back, some (1 : Fin 3)⟩)) ∧
      machine.perform (.drop "list") = .ok (.failed (.fault (.notLive 4168)), after) ∧
      GivenBack (front ++ back) (bad.free machine.store).2 after.store := by
  intro before front bad back start
  have lasting : start.answersAll (fun reply => reply.isAbort = false) before = true := by
    decide +kernel
  obtain ⟨given, machine, reached, survived⟩ := Machine.exists_of_answersAll lasting
  have checked : (match Machine.performAll before start with
      | .ok (_, machine) => decide (
          machine.view "list" = .ok (some (.chain ⟨front ++ bad :: back, some (1 : Fin 3)⟩)) ∧
          (bad.free machine.store).1 = some (.notLive 4168) ∧
          ∀ node ∈ front ++ back, (node.free machine.store).1 = none)
      | .error _ => false) = true := by decide +kernel
  rw [reached] at checked
  obtain ⟨found, failed, accepted⟩ := of_decide_eq_true checked
  obtain ⟨session, represents⟩ := Machine.exists_represents reached survived
  obtain ⟨after, _, _, _, performed, _, _, _, givenBack⟩ :=
    (represents.givesBack_drop found).2 front bad back _ rfl failed accepted
  exact ⟨given, machine, after, reached, found, performed, givenBack⟩

end Represents

end ChainLedger
