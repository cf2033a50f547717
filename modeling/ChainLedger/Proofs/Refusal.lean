import ChainLedger.Proofs.Disposal

set_option autoImplicit false

namespace ChainLedger

variable {T : Layering} {π : Type}

section Refusals

/-- What a refused request writes down: a note if a budget is to blame. -/
def Store.refusalNote (owner : Handle T) (layout : Layout) (store : Store T π) : List Event :=
  if owner.path.any fun i => (store.ledger i).IsSpent then [.requestRefused layout] else []

theorem Store.any_isSpent {owner : Handle T} {store : Store T π} :
    (owner.path.any fun i => decide (store.ledger i).IsSpent) = true ↔
      ∃ i ∈ owner.path, (store.ledger i).IsSpent := by
  simp only [List.any_eq_true, decide_eq_true_eq]

variable [Parent π]

theorem Store.events_of_refused {owner : Handle T} {layout : Layout} {store after : Store T π}
    (refused : store.allocate owner layout = (.error .refused, after)) :
    after.events = store.events ++ after.refusalNote owner layout := by
  obtain ⟨ledgers, reason⟩ := Store.allocateAlong_refused refused
  simp only [refusalNote, ledgers]
  by_cases spent : ∃ i ∈ owner.path, (store.ledger i).IsSpent
  · have noted : store.allocate owner layout =
        (.error .refused, store.emit (.requestRefused layout)) := allocateAlong_of_spent spent
    obtain rfl : store.emit (.requestRefused layout) = after :=
      congrArg Prod.snd (noted.symm.trans refused)
    rw [events_emit, if_pos (any_isSpent.2 spent)]
  · rw [if_neg (mt any_isSpent.1 spent), List.append_nil]
    rcases reason with ⟨-, -, blamed⟩ | ⟨-, trace⟩
    · exact absurd blamed spent
    · rw [events, trace, events]

theorem Store.exchange_ne_aborted {handle : Handle T} {addr : Nat} {held wanted layout : Layout}
    {store : Store T π} :
    (store.exchange handle addr held wanted).1 ≠ .error (.aborted layout) := by
  rw [exchange]
  rcases asked : store.allocate handle wanted with ⟨failure | moved, after⟩
  · rintro ⟨⟩
    exact allocateAlong_ne_aborted _ _ _ _ (congrArg Prod.fst asked)
  · rcases returned : after.deallocate handle addr held with ⟨_ | fault, left⟩
    · simp only [returned, ne_eq, reduceCtorEq, not_false_eq_true]
    · simp only [returned, ne_eq, Except.error.injEq, reduceCtorEq, not_false_eq_true]

theorem Node.events_of_allocate {demand : Demand} {owner : Handle T} {value : Int64} {node : Node T}
    {store after : Store T π} (granted : allocate demand owner value store = (.ok node, after)) :
    after.events = store.events ++ [.nodeAllocated node.value node.addr] := by
  obtain ⟨held, -⟩ := Node.of_allocate granted
  obtain ⟨between, asked, rfl⟩ := Node.granted_of_allocate granted
  obtain ⟨-, trace, -⟩ := Store.allocateAlong_ok owner.path_nodup asked
  rw [Store.events_emit, held, Store.events, trace, Store.events]

/-- A request was not refused: if it failed it met a fault. -/
def Unrefused {α : Type} (answer : Except Failure α) : Prop :=
  ∀ failure, answer = .error failure → ∃ fault, failure = .fault fault

theorem unrefused_ok {α : Type} (value : α) : Unrefused (.ok value) := nofun

theorem unrefused_fault {α : Type} (fault : Fault) :
    Unrefused (.error (.fault fault) : Except Failure α) := by
  rintro failure ⟨⟩
  exact ⟨fault, rfl⟩

/-- A node that is insisted on is refused where one that is tried for is, and otherwise it makes no
difference. -/
theorem Node.allocate_insist (owner : Handle T) (value : Int64) (store : Store T π) :
    (∃ after, store.allocate owner (recordLayout π owner) = (.error .refused, after) ∧
      allocate .attempt owner value store = (.error .refused, after) ∧
      allocate .insist owner value store = (.error (.aborted (recordLayout π owner)), after)) ∨
    allocate .insist owner value store = allocate .attempt owner value store ∧
      Unrefused (allocate .attempt owner value store).1 := by
  rcases asked : store.allocate owner (recordLayout π owner) with
    ⟨(_ | fault | wanted) | addr, after⟩
  · refine Or.inl ⟨after, rfl, ?_, ?_⟩
    · rw [allocate, asked]
      rfl
    · rw [allocate, asked]
      rfl
  · refine Or.inr ?_
    simp only [allocate, asked, true_and]
    exact unrefused_fault fault
  · exact absurd (congrArg Prod.fst asked) (Store.allocateAlong_ne_aborted _ _ _ _)
  · refine Or.inr ?_
    simp only [allocate, asked, true_and]
    exact unrefused_ok _

end Refusals

variable [Parent π]

section Builds

/-- Nodes that come from the parent itself are given back without a fault, wherever they stand. -/
theorem Tail.givenBack_discard_of_parent {nodes : Tail T} {store : Store T π}
    (direct : ∀ node ∈ nodes, node.owner.path = []) :
    (discard nodes store).1 = none ∧ GivenBack nodes store (discard nodes store).2 := by
  induction nodes generalizing store with
  | nil => exact ⟨rfl, .nil store⟩
  | cons node rest ih =>
    obtain ⟨here, behind⟩ := List.forall_mem_cons.1 direct
    have accepted : (node.free store).1 = none := by
      refine (Store.deallocateAlong_accepted node.owner.path_nodup ?_).1
      rw [here]
      exact List.forall_mem_nil _
    obtain ⟨quiet, given⟩ := @ih (node.free store).2 behind
    rw [discard_cons, accepted]
    exact ⟨quiet, (GivenBack.of_free accepted).append given⟩

/-- Nodes have been allocated one after the other and stand in the books of every ledger on the way
to their allocator. -/
structure Stands (built : Tail T) (owner : Handle T) (store : Store T π) : Prop where
  owned : ∀ node ∈ built, node.owner = owner
  recorded : ∀ node ∈ built, ∀ i ∈ owner.path,
    (store.ledger i).live[node.addr]? = some (recordLayout π owner)
  apart : owner.path ≠ [] → (built.map Node.addr).Nodup

namespace Stands

variable {built : Tail T} {owner : Handle T} {store after : Store T π}

theorem nil (owner : Handle T) (store : Store T π) : Stands [] owner store where
  owned := List.forall_mem_nil _
  recorded := List.forall_mem_nil _
  apart _ := List.nodup_nil

theorem of_ledger_eq (stands : Stands built owner store)
    (ledgers : ∀ i, after.ledger i = store.ledger i) : Stands built owner after where
  owned := stands.owned
  recorded node member i on := by
    rw [ledgers]
    exact stands.recorded node member i on
  apart := stands.apart

theorem allocate (stands : Stands built owner store) {demand : Demand} {value : Int64}
    {node : Node T} (granted : Node.allocate demand owner value store = (.ok node, after)) :
    Stands (node :: built) owner after := by
  obtain ⟨-, rfl⟩ := Node.of_allocate granted
  obtain ⟨between, asked, rfl⟩ := Node.granted_of_allocate granted
  obtain ⟨-, -, accepted, ledgers⟩ := Store.allocateAlong_ok node.owner.path_nodup asked
  have positive := (recordLayout_proper (π := π) node.owner).2
  -- Every ledger on the way has accepted the block, so none of them had it on record.
  have apart : ∀ other ∈ built, ∀ i ∈ node.owner.path, node.addr ≠ other.addr := by
    intro other member i on same
    have free := (Ledger.enter_accepted_iff.1 (accepted i on)).resolve_left positive
    rw [same, Ledger.isLive_eq, stands.recorded other member i on] at free
    cases free
  refine ⟨List.forall_mem_cons.2 ⟨rfl, stands.owned⟩, ?_, fun some_on => ?_⟩
  · refine List.forall_mem_cons.2 ⟨fun i on => ?_, fun other member i on => ?_⟩
    · rw [Store.ledger_emit, ledgers, if_pos on, Ledger.live_enter, if_pos ⟨rfl, positive⟩]
    · rw [Store.ledger_emit, ledgers, if_pos on, Ledger.live_enter,
        if_neg fun both => apart other member i on both.1]
      exact stands.recorded other member i on
  · obtain ⟨i, on⟩ := List.exists_mem_of_ne_nil _ some_on
    rw [List.map_cons, List.nodup_cons]
    refine ⟨fun again => ?_, stands.apart some_on⟩
    obtain ⟨other, member, same⟩ := List.mem_map.1 again
    exact apart other member i on same.symm

theorem accepted (stands : Stands built owner store) {node : Node T} (member : node ∈ built) :
    (node.free store).1 = none := by
  obtain rfl := stands.owned node member
  refine (Store.deallocateAlong_accepted node.owner.path_nodup fun i on => ?_).1
  rw [Store.ledger_emit, Ledger.strike_accepted_iff]
  exact Or.inr (stands.recorded node member i on)

/-- Nodes that stand in the books are given back without a fault. -/
theorem discard (stands : Stands built owner store) :
    (Tail.discard built store).1 = none ∧ GivenBack built store (Tail.discard built store).2 := by
  by_cases nowhere : owner.path = []
  · exact Tail.givenBack_discard_of_parent fun node member =>
      (congrArg Handle.path (stands.owned node member)).trans nowhere
  · exact Tail.givenBack_discard (stands.apart nowhere) fun node => stands.accepted

end Stands

/-- An allocation of nodes for pending values, one after the other, has been interrupted by a
refusal. -/
structure Interrupted (owner : Handle T) (pending : List Int64) (built : Tail T)
    (before cut : Store T π) : Prop where
  fewer : built.length < pending.length
  values : Tail.values built = (pending.take built.length).reverse
  events : cut.events = before.events ++
    built.reverse.map (fun node => .nodeAllocated node.value node.addr) ++
    cut.refusalNote owner (recordLayout π owner)

namespace Interrupted

variable {owner : Handle T} {value : Int64} {pending : List Int64} {built : Tail T}
  {before between cut : Store T π}

theorem first (refused : before.allocate owner (recordLayout π owner) = (.error .refused, cut)) :
    Interrupted owner (value :: pending) [] before cut where
  fewer := Nat.succ_pos _
  values := rfl
  events := by
    rw [List.reverse_nil, List.map_nil, List.append_nil]
    exact Store.events_of_refused refused

theorem later {demand : Demand} {node : Node T}
    (granted : Node.allocate demand owner value before = (.ok node, between))
    (interrupted : Interrupted owner pending built between cut) :
    Interrupted owner (value :: pending) (built ++ [node]) before cut where
  fewer := by
    rw [List.length_append, List.length_singleton, List.length_cons]
    exact Nat.succ_lt_succ interrupted.fewer
  values := by
    have values := interrupted.values
    rw [Tail.values] at values ⊢
    rw [List.map_append, values, List.length_append, List.length_singleton, List.take_succ_cons,
      List.reverse_cons, List.map_singleton, (Node.of_allocate granted).1]
  events := by
    rw [interrupted.events, Node.events_of_allocate granted, List.reverse_append,
      List.reverse_singleton, List.map_append, List.map_singleton, List.append_assoc before.events]

end Interrupted

/-- A build that insists is refused where one that tries is. The one leaves its nodes where they
are, the other gives them back. Otherwise it makes no difference. -/
theorem Chain.buildOnto_insist {owner : Handle T} (total : Nat) {pending : List Int64}
    {built : Tail T} {store : Store T π} (stands : Stands built owner store) :
    (∃ more cut, Interrupted owner pending more store cut ∧ Stands (more ++ built) owner cut ∧
      buildOnto .insist owner total pending built store =
        (.error (.aborted (recordLayout π owner)), cut) ∧
      buildOnto .attempt owner total pending built store = (.error .refused,
        (Tail.discard (more ++ built)
          (cut.emit (.buildAbandoned (more ++ built).length total))).2)) ∨
    buildOnto .insist owner total pending built store =
        buildOnto .attempt owner total pending built store ∧
      Unrefused (buildOnto .attempt owner total pending built store).1 := by
  induction pending generalizing built store with
  | nil => exact Or.inr ⟨rfl, unrefused_ok built⟩
  | cons value pending ih =>
    rcases Node.allocate_insist owner value store with
      ⟨cut, refused, tried, insisted⟩ | ⟨same, unrefused⟩
    · have still : Stands built owner (cut.emit (.buildAbandoned built.length total)) :=
        stands.of_ledger_eq (Store.allocateAlong_refused refused).1
      have quiet := still.discard.1
      refine Or.inl ⟨[], cut, .first refused,
        stands.of_ledger_eq (Store.allocateAlong_refused refused).1, ?_, ?_⟩
      · rw [buildOnto, insisted]
      · rw [buildOnto_of_refused total pending built tried, quiet]
        rfl
    · rcases tried : Node.allocate .attempt owner value store with ⟨failure | node, after⟩
      · obtain ⟨fault, rfl⟩ := unrefused failure (congrArg Prod.fst tried)
        refine Or.inr ?_
        simp only [buildOnto, same, tried, true_and]
        exact unrefused_fault fault
      · simp only [buildOnto, same, tried]
        rcases ih (stands.allocate tried) with
          ⟨more, cut, interrupted, stands, insisted, given_up⟩ | alike
        · rw [List.append_cons] at stands given_up
          exact Or.inl ⟨more ++ [node], cut, interrupted.later tried, stands, insisted, given_up⟩
        · exact Or.inr alike

theorem Chain.build_insist (owner : Handle T) (values : List Int64) (store : Store T π) :
    (∃ built cut, Interrupted owner values.reverse built store cut ∧ Stands built owner cut ∧
      build .insist owner values store = (.error (.aborted (recordLayout π owner)), cut) ∧
      build .attempt owner values store = (.error .refused,
        (Tail.discard built (cut.emit (.buildAbandoned built.length values.length))).2)) ∨
    build .insist owner values store = build .attempt owner values store ∧
      Unrefused (build .attempt owner values store).1 := by
  rcases buildOnto_insist values.length (Stands.nil owner store) with
    ⟨built, cut, interrupted, stands, insisted, given_up⟩ | ⟨same, unrefused⟩
  · rw [List.append_nil] at stands given_up
    refine Or.inl ⟨built, cut, interrupted, stands, ?_, ?_⟩
    · rw [build, insisted]
    · rw [build, given_up]
  · refine Or.inr ?_
    rw [build, build, same]
    rcases tried : buildOnto .attempt owner values.length values.reverse [] store with
      ⟨failure | nodes, after⟩
    · obtain ⟨fault, rfl⟩ := unrefused failure (congrArg Prod.fst tried)
      exact ⟨rfl, unrefused_fault fault⟩
    · exact ⟨rfl, unrefused_ok _⟩

end Builds

section Records

namespace Depot

variable (owner : Handle T) (value : Int64) (depot : Depot T π)

theorem discardAfter_ok (first : Option Fault) (link : Option Nat) :
    (∃ result, depot.discardAfter first link = .ok result) ∨
      ∃ addr, depot.discardAfter first link = .error (.dangling addr) := by
  fun_induction discardAfter first link depot with
  | case1 first depot => exact Or.inl ⟨_, rfl⟩
  | case2 first depot addr found => exact Or.inr ⟨addr, rfl⟩
  | case3 _ _ _ _ _ _ _ _ _ ih => exact ih

theorem allocate_insist :
    (∃ layout cut, depot.allocate .insist owner value = .ok (.error (.aborted layout), cut) ∧
      depot.allocate .attempt owner value = .ok (.error .refused, cut)) ∨
    depot.allocate .insist owner value = depot.allocate .attempt owner value := by
  rcases Node.allocate_insist owner value depot.store with
    ⟨cut, -, tried, insisted⟩ | ⟨same, -⟩
  · exact Or.inl ⟨_, _, allocate_error insisted, allocate_error tried⟩
  · refine Or.inr ?_
    rw [allocate, allocate, same]

theorem pushOnto_insist (head : Option Nat) :
    (∃ layout cut, depot.pushOnto .insist owner value head = .ok (.error (.aborted layout), cut) ∧
      depot.pushOnto .attempt owner value head = .ok (.error .refused, cut)) ∨
    depot.pushOnto .insist owner value head = depot.pushOnto .attempt owner value head := by
  rcases depot.allocate_insist owner value with ⟨layout, cut, stops, refused⟩ | same
  · refine Or.inl ⟨layout, cut, ?_, ?_⟩
    · rw [pushOnto, stops]
      rfl
    · rw [pushOnto, refused]
      rfl
  · refine Or.inr ?_
    rw [pushOnto, pushOnto, same]

/-- Where a build that insists is over, one that tries comes to a failure too. -/
theorem buildOnto_insist (total : Nat) (pending : List Int64) (built : Nat) (head : Option Nat) :
    (∃ layout cut, depot.buildOnto .insist owner total pending built head =
        .ok (.error (.aborted layout), cut) ∧
      ((∃ failure after, depot.buildOnto .attempt owner total pending built head =
        .ok (.error failure, after)) ∨
      ∃ addr, depot.buildOnto .attempt owner total pending built head =
        .error (.dangling addr))) ∨
    depot.buildOnto .insist owner total pending built head =
      depot.buildOnto .attempt owner total pending built head := by
  induction pending generalizing built head depot with
  | nil => exact Or.inr rfl
  | cons value pending ih =>
    rcases depot.pushOnto_insist owner value head with ⟨layout, cut, stops, refused⟩ | same
    · refine Or.inl ⟨layout, cut, ?_, ?_⟩
      · rw [buildOnto, stops]
        rfl
      · rw [buildOnto, refused]
        rcases discardAfter_ok { cut with store := cut.store.emit (.buildAbandoned built total) }
          none head with ⟨⟨_ | fault, after⟩, discarded⟩ | ⟨addr, lost⟩
        · refine Or.inl ⟨.refused, after, ?_⟩
          simp only [ok_bind, discard, discarded, pure_eq_ok]
        · refine Or.inl ⟨.fault fault, after, ?_⟩
          simp only [ok_bind, discard, discarded, pure_eq_ok]
        · refine Or.inr ⟨addr, ?_⟩
          simp only [ok_bind, discard, lost]
          rfl
    · rw [buildOnto, buildOnto, same]
      rcases depot.pushOnto .attempt owner value head with
        hazard | ⟨(_ | fault | layout) | head, after⟩
      · exact Or.inr rfl
      · exact Or.inr rfl
      · exact Or.inr rfl
      · exact Or.inr rfl
      · exact ih after (built + 1) head

end Depot

end Records

end ChainLedger
