import ChainLedger.Proofs.Refusal
import ChainLedger.Proofs.Supply
import ChainLedger.Walkthrough

set_option autoImplicit false

namespace ChainLedger

/-- The records of nodes that are linked to no other. -/
def Tail.loose {T : Layering} (nodes : Tail T) : Multiset (Nat × Record T) :=
  ↑(nodes.map fun node => (node.addr, (⟨node.value, none, node.owner⟩ : Record T)))

theorem Tail.loose_cons {T : Layering} (node : Node T) (rest : Tail T) :
    loose (node :: rest) = (node.addr, ⟨node.value, none, node.owner⟩) ::ₘ loose rest := rfl

theorem Tail.map_fst_loose {T : Layering} (nodes : Tail T) :
    nodes.loose.map Prod.fst = ↑(nodes.map Node.addr) := by
  rw [loose, Multiset.map_coe, List.map_map]
  rfl

theorem Memory.Holds.relink_loose {T : Layering} {memory : Memory T}
    {rest : Multiset (Nat × Record T)} {node : Node T} {tail : Tail T}
    (holds : memory.Holds ((node.addr, ⟨node.value, none, node.owner⟩) ::ₘ (tail.records + rest))) :
    ∃ after, memory.relink node.addr tail.link = .ok (none, after) ∧
      after.Holds (Tail.records (node :: tail) + rest) := by
  obtain ⟨after, linked, held⟩ := holds.relink tail.link
  exact ⟨after, linked, held.cast (by rw [Tail.records_cons, Multiset.cons_add])⟩

namespace Walkthrough

variable {T : Layering} {π : Type}

namespace Progress

variable {progress : Progress T π} {depot : Depot T π}

theorem entries_remark (entry : Entry) (progress : Progress T π) :
    (progress.remark entry).entries = progress.entries ++ [entry] :=
  List.append_nil _

theorem entries_of_events {events : List Event}
    (happened : depot.store.events = progress.depot.store.events ++ events) :
    ({ progress with depot } : Progress T π).entries = progress.entries ++ events.map .event := by
  rw [entries, happened, List.map_append, ← List.append_assoc]
  rfl

end Progress

theorem remarkRemaining_eq {progress : Progress T π} {node : Node T} {rest : Tail T}
    (holds : progress.depot.memory.Holds (Tail.records (node :: rest) + 0)) :
    remarkRemaining (Tail.link (node :: rest)) progress =
      .ok (progress.remark (.remaining (Tail.values (node :: rest)))) := by
  have gathered : progress.depot.memory.gather (some node.addr) = _ := holds.gather
  rw [Tail.link_cons, remarkRemaining, gathered, ok_bind, pure_eq_ok]

variable [Parent π]

/-- The nodes at hand are those that ledger `i` has out, each in a record without a link, and there
are no other records. -/
structure Holding (i : Fin T.size) (budget : Option Nat) (first : π) (count : Nat) (held : Tail T)
    (depot : Depot T π) : Prop where
  stocked : Stocked i budget first count ↑held depot.store
  memory : depot.memory.Holds held.loose

/-- The nodes at hand, of which the latest comes first, are all that has been written down. -/
structure Underway (i : Fin T.size) (budget : Option Nat) (first : π) (count : Nat) (held : Tail T)
    (progress : Progress T π) : Prop where
  holding : Holding i budget first count held progress.depot
  entries : progress.entries =
    held.reverse.map fun node => .event (.nodeAllocated node.value node.addr)

/-- What a walkthrough writes down that comes to its end, with its nodes at the given addresses. By
then the ledger has counted so many releases. -/
def fullLog (one two three releases : Nat) : List Entry :=
  [.event (.nodeAllocated 1 one), .event (.nodeAllocated 2 two), .event (.nodeAllocated 3 three),
    .bound 1, .advanced 2, .advancedTo 3 true,
    .event (.nodeReleased 3 three), .released 3 2, .remaining [1, 2],
    .event (.nodeReleased 1 one), .event (.nodeReleased 2 two), .finished 0 releases]

/-- What a walkthrough writes down that is refused a block of this layout once it has got `built`,
the latest node first. -/
def brokenLog (layout : Layout) (built : Tail T) : List Entry :=
  built.reverse.map (fun node => .event (.nodeAllocated node.value node.addr)) ++
    .event (.requestRefused layout) ::
      built.map fun node => .event (.nodeReleased node.value node.addr)

section Steps

variable {i : Fin T.size} {budget : Option Nat} {first : π} {count limit : Nat} {held : Tail T}
  {depot : Depot T π} {progress : Progress T π} {one two three : Node T}

theorem Holding.start (holding : Holding i budget first count held depot) :
    Holding i budget first count held (Progress.start depot).depot :=
  ⟨holding.stocked.congr rfl rfl, holding.memory⟩

theorem Holding.underway (holding : Holding i budget first count [] depot) :
    Underway i budget first count [] (.start depot) :=
  ⟨holding.start, rfl⟩

/-- Nodes that are not linked are discarded like the nodes of a list. -/
theorem discardEach_eq {memory : Memory T} (holds : memory.Holds held.loose) (store : Store T π) :
    ∃ left, discardEach (held.map Node.addr) (⟨store, memory⟩ : Depot T π) =
        .ok ((held.discard store).1, ⟨(held.discard store).2, left⟩) ∧ left.Holds 0 := by
  induction held generalizing store memory with
  | nil => exact ⟨memory, rfl, holds⟩
  | cons node later ih =>
    have alone : memory.Holds (Tail.records [node] + Tail.loose later) := by
      rwa [Tail.records_cons, Tail.records_nil, Multiset.cons_add, zero_add]
    obtain ⟨between, discarded, holds⟩ := Depot.discard_eq alone store
    obtain ⟨left, further, holds⟩ := ih holds (Tail.discard [node] store).2
    have whole := Tail.discard_append [node] later store
    rw [List.singleton_append] at whole
    rw [Tail.link_cons] at discarded
    refine ⟨left, ?_, holds⟩
    simp only [List.map_cons, discardEach, discarded, further, whole, ok_bind, pure_eq_ok]

/-- Giving up leaves nothing at hand. The nodes are released one by one, the latest first. -/
theorem giveUp_refused (bottom : T.below i = none)
    (holding : Holding i budget first count held progress.depot) :
    ∃ outcome, giveUp .refused (held.map Node.addr) progress = .ok outcome ∧
      outcome.result = .error .refused ∧ Holding i budget first count [] outcome.depot ∧
      outcome.log = progress.entries ++
        held.map fun node => .event (.nodeReleased node.value node.addr) := by
  obtain ⟨quiet, stocked⟩ := holding.stocked.discard bottom
  obtain ⟨left, discarded, holds⟩ := discardEach_eq holding.memory progress.depot.store
  refine ⟨({ progress with depot := ⟨(held.discard progress.depot.store).2, left⟩ } :
    Progress T π).ended (.error .refused), ?_, rfl, ⟨stocked, holds⟩, ?_⟩
  · rw [giveUp, discarded, ok_bind, quiet]
    rfl
  · rw [Progress.ended, Progress.entries_of_events (Tail.events_discard held progress.depot.store),
      List.map_map]
    rfl

/-- A node that the budget allows is at hand afterwards, with those that were there already. -/
theorem withNode_granted (bottom : T.below i = none)
    (supplies : Parent.Supplies (recordLayout π (some i)) limit first)
    (underway : Underway i budget first count held progress) (more : count < limit)
    (unspent : budget ≠ some count) (value : Int64) :
    ∃ (node : Node T) (after : Progress T π), node.value = value ∧
      Underway i budget first (count + 1) (node :: held) after ∧
      ∀ onward, withNode i value (held.map Node.addr) progress onward =
        onward node.addr after := by
  obtain ⟨holding, entries⟩ := underway
  obtain ⟨node, store, granted, apart, stocked⟩ :=
    holding.stocked.allocate bottom supplies more unspent value
  obtain ⟨valued, owned⟩ := Node.of_allocate granted
  have happened := Node.events_of_allocate granted
  have free : progress.depot.memory.get? node.addr = none := by
    refine holding.memory.get?_eq_none ?_
    rwa [Tail.map_fst_loose]
  refine ⟨node, { progress with
    depot := ⟨store, progress.depot.memory.write node.addr ⟨value, none, some i⟩⟩ }, valued,
    ⟨⟨stocked, ?_⟩, ?_⟩, fun onward => ?_⟩
  · rw [Tail.loose_cons, valued, owned]
    exact holding.memory.write free
  · rw [Progress.entries_of_events happened, entries, List.reverse_cons, List.map_append]
    rfl
  · simp only [withNode, Depot.allocate, granted, free, ok_bind]

/-- A node that the budget does not allow is refused, and those at hand are given up. -/
theorem withNode_refused (bottom : T.below i = none)
    (underway : Underway i budget first count held progress) (spent : budget = some count)
    (value : Int64) (onward : Nat → Progress T π → Except Hazard (Outcome T π)) :
    ∃ outcome, withNode i value (held.map Node.addr) progress onward = .ok outcome ∧
      outcome.result = .error .refused ∧ Holding i budget first count [] outcome.depot ∧
      outcome.log = brokenLog (recordLayout π (some i)) held := by
  obtain ⟨holding, entries⟩ := underway
  have refused := holding.stocked.refuse bottom spent value
  have still : Holding i budget first count held ({ progress with depot :=
      ⟨progress.depot.store.emit (.requestRefused (recordLayout π (some i))),
        progress.depot.memory⟩ } : Progress T π).depot :=
    ⟨holding.stocked.congr rfl rfl, holding.memory⟩
  obtain ⟨outcome, ended, result, settled, log⟩ := giveUp_refused bottom still
  refine ⟨outcome, ?_, result, settled, ?_⟩
  · simp only [withNode, Depot.allocate, refused, ok_bind, ended]
  · rw [log, Progress.entries_of_events (Store.events_emit _ _), entries, List.append_assoc]
    rfl

theorem link_three {memory : Memory T} (holds : memory.Holds (Tail.loose [three, two, one])) :
    ∃ first second third, memory.relink three.addr none = .ok (none, first) ∧
      first.relink two.addr (some three.addr) = .ok (none, second) ∧
      second.relink one.addr (some two.addr) = .ok (none, third) ∧
      third.Holds (Tail.records [one, two, three]) := by
  have last : memory.Holds ((three.addr, ⟨three.value, none, three.owner⟩) ::ₘ
      (Tail.records [] + Tail.loose [two, one])) := by
    rwa [Tail.records_nil, zero_add]
  obtain ⟨first, linked, holds⟩ := last.relink_loose
  rw [Tail.loose_cons, Multiset.add_cons] at holds
  obtain ⟨second, linked', holds⟩ := holds.relink_loose
  rw [Tail.loose_cons, Multiset.add_cons] at holds
  obtain ⟨third, linked'', holds⟩ := holds.relink_loose
  exact ⟨first, second, third, linked, linked', linked'', holds.cast (add_zero _)⟩

theorem discarding_done (bottom : T.below i = none)
    (stocked : Stocked i budget first count ↑held progress.depot.store)
    (holds : progress.depot.memory.Holds held.records) :
    ∃ after : Progress T π, Holding i budget first count [] after.depot ∧
      after.entries = progress.entries ++
        held.map (fun node => .event (.nodeReleased node.value node.addr)) ∧
      ∀ onward, discarding held.link progress onward = .ok (onward after) := by
  obtain ⟨quiet, stocked⟩ := stocked.discard bottom
  obtain ⟨left, discarded, holds⟩ :=
    Depot.discard_eq (holds.cast (add_zero _).symm) progress.depot.store
  refine ⟨{ progress with depot := ⟨(held.discard progress.depot.store).2, left⟩ },
    ⟨stocked, holds⟩, ?_, fun onward => ?_⟩
  · rw [Progress.entries_of_events (Tail.events_discard held progress.depot.store), List.map_map]
    rfl
  · rw [discarding, discarded, ok_bind, quiet]
    rfl

theorem leave_done (bottom : T.below i = none)
    (stocked : Stocked i budget first count ↑[one, two, three] progress.depot.store)
    (holds : progress.depot.memory.Holds (Tail.records [one, two, three])) :
    ∃ outcome, leave i (⟨[two, one], three, []⟩ : Zipper T).editor progress = .ok outcome ∧
      outcome.result = .ok () ∧ Holding i budget first count [] outcome.depot ∧
      outcome.log = progress.entries ++ [.event (.nodeReleased three.value three.addr),
        .released three.value 2, .remaining [one.value, two.value],
        .event (.nodeReleased one.value one.addr), .event (.nodeReleased two.value two.addr),
        .finished 0 count] := by
  have turned : ([one, two] ++ [three]).Perm ([three] ++ [one, two]) := List.perm_append_comm
  have last : (↑[one, two, three] : Multiset (Node T)) = three ::ₘ ↑[one, two] :=
    Multiset.coe_eq_coe.2 turned
  rw [last] at stocked
  obtain ⟨quiet, stocked⟩ := stocked.free bottom
  have happened := three.events_free progress.depot.store
  obtain ⟨store, freed⟩ : ∃ store, three.free progress.depot.store = (none, store) :=
    ⟨_, Prod.ext quiet rfl⟩
  rw [freed] at stocked happened
  have released : (⟨[two, one], three, []⟩ : Zipper T).release progress.depot.store =
      (.ok three.value, [one, two], store) := by
    simp only [Zipper.release, Tail.releaseHead, freed]
    rfl
  have place : progress.depot.memory.Holds
      ((⟨[two, one], three, []⟩ : Zipper T).nodes.records + 0) :=
    holds.cast (add_zero _).symm
  obtain ⟨memory, edited, holds⟩ := Zipper.release_editor place released
  have edited : Editor.release _ progress.depot = _ := edited
  have two_live : (store.ledger i).liveCount = 2 := stocked.liveCount
  -- From here on the events that have been written down are no longer in the store.
  let noted : Progress T π :=
    .remark (.released three.value 2) { progress with depot := ⟨store, memory⟩ }
  have remarked : remarkRemaining _ noted = _ := remarkRemaining_eq holds
  have still : Stocked i budget first count ↑[one, two]
      (noted.remark (.remaining [one.value, two.value])).depot.store := stocked.congr rfl rfl
  obtain ⟨after, settled, entries, discarded⟩ :=
    discarding_done bottom still (holds.cast (add_zero _))
  have none_live : (after.depot.store.ledger i).liveCount = 0 := settled.stocked.liveCount
  have all_back : (after.depot.store.ledger i).releases = count := settled.stocked.releases
  refine ⟨(after.remark (.finished 0 count)).ended (.ok ()), ?_, rfl, settled.start, ?_⟩
  · simp only [leave, edited, ok_bind, two_live]
    rw [remarked, ok_bind]
    exact (discarded _).trans (by rw [none_live, all_back])
  · have noted_entries : noted.entries = progress.entries ++
        [.event (.nodeReleased three.value three.addr), .released three.value 2] := by
      rw [Progress.entries_remark, Progress.entries_of_events happened, List.append_assoc]
      rfl
    rw [Progress.ended, Progress.entries_remark, entries, Progress.entries_remark, noted_entries]
    simp only [List.append_assoc]
    rfl

theorem tour_done (bottom : T.below i = none)
    (stocked : Stocked i budget first count ↑[one, two, three] progress.depot.store)
    (holds : progress.depot.memory.Holds (Tail.records [one, two, three])) :
    ∃ outcome, tour i (some one.addr) progress = .ok outcome ∧ outcome.result = .ok () ∧
      Holding i budget first count [] outcome.depot ∧
      outcome.log = progress.entries ++ [.bound one.value, .advanced two.value,
        .advancedTo three.value true, .event (.nodeReleased three.value three.addr),
        .released three.value 2, .remaining [one.value, two.value],
        .event (.nodeReleased one.value one.addr), .event (.nodeReleased two.value two.addr),
        .finished 0 count] := by
  have whole := holds.cast (add_zero _).symm
  have first_place : progress.depot.memory.Holds
      ((⟨[], one, [two, three]⟩ : Zipper T).nodes.records + 0) := whole
  have second_place : progress.depot.memory.Holds
      ((⟨[one], two, [three]⟩ : Zipper T).nodes.records + 0) := whole
  have third_place : progress.depot.memory.Holds
      ((⟨[two, one], three, []⟩ : Zipper T).nodes.records + 0) := whole
  have begun : Editor.ofLink? (some one.addr) =
      some (⟨[], one, [two, three]⟩ : Zipper T).editor := rfl
  have to_second := Zipper.advance?_editor first_place
  have to_third := Zipper.advance?_editor second_place
  let arrived : Progress T π :=
    ((progress.remark (.bound one.value)).remark (.advanced two.value)).remark
      (.advancedTo three.value true)
  have still : Stocked i budget first count ↑[one, two, three] arrived.depot.store :=
    stocked.congr rfl rfl
  obtain ⟨outcome, left, result, settled, log⟩ := leave_done bottom still holds
  refine ⟨outcome, ?_, result, settled, ?_⟩
  · simp only [tour, begun, Zipper.record_editor first_place, to_second, Zipper.advance?,
      Option.map_some, Zipper.record_editor second_place, to_third,
      Zipper.record_editor third_place, ok_bind]
    exact left
  · rw [log, Progress.entries_remark, Progress.entries_remark, Progress.entries_remark]
    simp only [List.append_assoc]
    rfl

end Steps

section Runs

variable {i : Fin T.size} {budget : Option Nat} {first : π} {count limit : Nat}
  {depot : Depot T π}

/-- A walkthrough that gets its three nodes comes to its end. -/
theorem run_done (bottom : T.below i = none)
    (supplies : Parent.Supplies (recordLayout π (some i)) limit first)
    (settled : Holding i budget first count [] depot) (more : count + 3 ≤ limit)
    (allowed : ∀ n, budget = some n → count + 3 ≤ n) :
    ∃ outcome one two three, run i depot = .ok outcome ∧ outcome.result = .ok () ∧
      Holding i budget first (count + 3) [] outcome.depot ∧ [one, two, three].Nodup ∧
      outcome.log = fullLog one two three (count + 3) := by
  have unspent : ∀ taken < count + 3, budget ≠ some taken := fun taken fewer same => by
    have := allowed taken same
    omega
  obtain ⟨one, after, valued, underway, onward⟩ := withNode_granted bottom supplies
    settled.underway (by omega) (unspent _ (by omega)) 1
  obtain ⟨two, after', valued', underway, onward'⟩ := withNode_granted bottom supplies
    underway (by omega) (unspent _ (by omega)) 2
  obtain ⟨three, ready, valued'', ⟨⟨stocked, loose⟩, entries⟩, onward''⟩ := withNode_granted bottom
    supplies underway (by omega) (unspent _ (by omega)) 3
  obtain ⟨_, _, memory, linked, linked', linked'', holds⟩ := link_three loose
  have distinct : [one.addr, two.addr, three.addr].Nodup :=
    List.nodup_reverse.1 (Multiset.coe_nodup.1 stocked.distinct)
  have turned : (↑[three, two, one] : Multiset (Node T)) = ↑[one, two, three] :=
    Multiset.coe_eq_coe.2 (List.reverse_perm [one, two, three])
  rw [turned] at stocked
  let chained : Progress T π := { ready with depot := { ready.depot with memory } }
  have stocked : Stocked i budget first (count + 3) ↑[one, two, three] chained.depot.store :=
    stocked
  obtain ⟨outcome, ended, result, left, log⟩ := tour_done bottom stocked holds
  refine ⟨outcome, one.addr, two.addr, three.addr, ?_, result, left, distinct, ?_⟩
  · refine (onward _).trans ((onward' _).trans ((onward'' _).trans ?_))
    simp only [linked, linked', linked'', ok_bind]
    exact ended
  · have same : chained.entries = ready.entries := rfl
    rw [log, same, entries]
    simp only [List.reverse_cons, List.reverse_nil, List.nil_append, List.cons_append,
      List.map_cons, List.map_nil, valued, valued', valued'']
    rfl

/-- A walkthrough for which the budget is too small by a node or more gives up what it has got. -/
theorem run_refused (bottom : T.below i = none)
    (supplies : Parent.Supplies (recordLayout π (some i)) limit first)
    (settled : Holding i budget first count [] depot) {taken : Nat} (fewer : taken < 3)
    (more : count + taken ≤ limit) (spent : budget = some (count + taken)) :
    ∃ outcome, ∃ built : Tail T, run i depot = .ok outcome ∧ outcome.result = .error .refused ∧
      Holding i budget first (count + taken) [] outcome.depot ∧ built.length = taken ∧
      Tail.values built = ([1, 2, 3].take taken).reverse ∧
      outcome.log = brokenLog (recordLayout π (some i)) built := by
  have unspent : ∀ less < count + taken, budget ≠ some less := by
    rintro less fewer same
    rw [spent, Option.some.injEq] at same
    omega
  -- It is the first, the second or the third node that is refused.
  match taken with
  | 0 =>
    obtain ⟨outcome, ended, result, left, log⟩ :=
      withNode_refused bottom settled.underway spent 1 _
    exact ⟨outcome, [], ended, result, left, rfl, rfl, log⟩
  | 1 =>
    obtain ⟨one, after, valued, underway, onward⟩ := withNode_granted bottom supplies
      settled.underway (by omega) (unspent _ (by omega)) 1
    obtain ⟨outcome, ended, result, left, log⟩ := withNode_refused bottom underway spent 2 _
    refine ⟨outcome, [one], (onward _).trans ended, result, left, rfl, ?_, log⟩
    exact congrArg (fun value => [value]) valued
  | 2 =>
    obtain ⟨one, after, valued, underway, onward⟩ := withNode_granted bottom supplies
      settled.underway (by omega) (unspent _ (by omega)) 1
    obtain ⟨two, after', valued', underway, onward'⟩ := withNode_granted bottom supplies
      underway (by omega) (unspent _ (by omega)) 2
    obtain ⟨outcome, ended, result, left, log⟩ := withNode_refused bottom underway spent 3 _
    refine ⟨outcome, [two, one], (onward _).trans ((onward' _).trans ended), result, left, rfl, ?_,
      log⟩
    exact congrArg₂ (fun later value => [later, value]) valued' valued

/-- How many of so many blocks wanted are within a budget. -/
def within (budget : Option Nat) (wanted : Nat) : Nat :=
  budget.elim wanted fun n => min n wanted

/-- All nodes that ledger `i` has handed out are back, and nothing of them is left in memory. So many
have been wanted since it was opened, and it has handed out those that were within its budget. -/
structure Cleared (i : Fin T.size) (budget : Option Nat) (wanted : Nat) (depot : Depot T π) :
    Prop where
  live : (depot.store.ledger i).liveCount = 0
  allocations : (depot.store.ledger i).allocations = within budget wanted
  releases : (depot.store.ledger i).releases = within budget wanted
  left : (depot.store.ledger i).budget = budget.map (· - wanted)
  memory : depot.memory = .empty

/-- How a walkthrough ends on ledger `i`, opened with this budget, if it comes after `turn` others. -/
structure Toured (i : Fin T.size) (budget : Option Nat) (turn : Nat) (outcome : Outcome T π) :
    Prop where
  succeeds : outcome.result = .ok () ↔ ∀ n, budget = some n → 3 * (turn + 1) ≤ n
  cleared : Cleared i budget (3 * (turn + 1)) outcome.depot
  full : outcome.result = .ok () → ∃ one two three, [one, two, three].Nodup ∧
    outcome.log = fullLog one two three (3 * (turn + 1))
  /-- It fails in one way only: what the budget has left for this turn is less than three nodes. -/
  broken : ∀ failure, outcome.result = .error failure → failure = .refused ∧
    ∃ built : Tail T, built.length < 3 ∧
      within budget (3 * turn) + built.length = within budget (3 * (turn + 1)) ∧
      Tail.values built = ([1, 2, 3].take built.length).reverse ∧
      outcome.log = brokenLog (recordLayout π (some i)) built

section Turns

variable {wanted more : Nat}

theorem within_le (budget : Option Nat) (le : wanted ≤ more) :
    within budget wanted ≤ within budget more := by
  cases budget with
  | none => exact le
  | some n => exact min_le_min_left n le

theorem within_eq_self : within budget wanted = wanted ↔ ∀ n, budget = some n → wanted ≤ n := by
  cases budget with
  | none => simp only [within, Option.elim_none, reduceCtorEq, false_implies, implies_true]
  | some n => simp only [within, Option.elim_some, min_eq_right_iff, Option.some.injEq, forall_eq']

theorem Holding.cleared (holding : Holding i budget first (within budget wanted) [] depot) :
    Cleared i budget wanted depot where
  live := holding.stocked.liveCount
  allocations := holding.stocked.allocations
  releases := holding.stocked.releases
  left := by
    have remains := holding.stocked.budget
    cases budget with
    | none => exact remains
    | some n =>
      obtain ⟨-, left⟩ := remains
      rw [left, within, Option.elim_some, Option.map_some, Option.some.injEq]
      omega
  memory := holding.memory.unique Memory.holds_empty

/-- Another walkthrough on a ledger whose nodes are all back. What it gets is what the budget allows
beyond the turns before, and again all of it comes back. -/
theorem run_toured (bottom : T.below i = none)
    (supplies : Parent.Supplies (recordLayout π (some i)) limit first) {turn : Nat}
    (holding : Holding i budget first (within budget (3 * turn)) [] depot)
    (enough : within budget (3 * (turn + 1)) ≤ limit) :
    ∃ outcome, run i depot = .ok outcome ∧
      Holding i budget first (within budget (3 * (turn + 1))) [] outcome.depot ∧
      Toured i budget turn outcome := by
  by_cases allowed : ∀ n, budget = some n → 3 * (turn + 1) ≤ n
  · have before : within budget (3 * turn) = 3 * turn :=
      within_eq_self.2 fun n same => by have := allowed n same; omega
    have after : within budget (3 * (turn + 1)) = 3 * turn + 3 := within_eq_self.2 allowed
    rw [before] at holding
    rw [after] at enough
    obtain ⟨outcome, one, two, three, ended, result, holding, apart, log⟩ :=
      run_done bottom supplies holding enough allowed
    rw [← after] at holding
    refine ⟨outcome, ended, holding, iff_of_true result allowed, holding.cleared,
      fun _ => ⟨one, two, three, apart, log⟩, fun failure failed => ?_⟩
    rw [result] at failed
    cases failed
  · obtain ⟨n, rfl, short⟩ : ∃ n, budget = some n ∧ n < 3 * (turn + 1) := by
      simpa only [not_forall, not_le, exists_prop] using allowed
    have whole : within (some n) (3 * (turn + 1)) = n := min_eq_left (Nat.le_of_lt short)
    obtain ⟨taken, fewer, spent⟩ : ∃ taken < 3, within (some n) (3 * turn) + taken = n := by
      refine ⟨n - 3 * turn, by omega, ?_⟩
      rw [within, Option.elim_some]
      omega
    obtain ⟨outcome, built, ended, result, holding, length, values, log⟩ :=
      run_refused bottom supplies holding fewer (by omega) (congrArg some spent.symm)
    have reached := spent.trans whole.symm
    rw [reached] at holding
    subst length
    have unfinished : outcome.result ≠ .ok () := by
      rw [result]
      nofun
    refine ⟨outcome, ended, holding, iff_of_false unfinished allowed, holding.cleared,
      fun done => absurd done unfinished, fun failure failed => ?_⟩
    rw [result, Except.error.injEq] at failed
    exact ⟨failed.symm, built, fewer, reached, values, log⟩

/-- Any number of walkthroughs after `turn` others. The ledger comes out of each as it came out of
the last, but for the counts. -/
theorem runs_toured (bottom : T.below i = none)
    (supplies : Parent.Supplies (recordLayout π (some i)) limit first) (turns turn : Nat)
    (holding : Holding i budget first (within budget (3 * turn)) [] depot)
    (enough : within budget (3 * (turn + turns)) ≤ limit) :
    ∃ outcomes, runs i turns depot = .ok outcomes ∧ outcomes.length = turns ∧
      ∀ later outcome, outcomes[later]? = some outcome →
        Toured i budget (turn + later) outcome := by
  induction turns generalizing turn depot with
  | zero => exact ⟨[], rfl, rfl, nofun⟩
  | succ turns ih =>
    obtain ⟨outcome, ended, holding, toured⟩ := run_toured bottom supplies holding
      (Nat.le_trans (within_le budget (by omega)) enough)
    obtain ⟨outcomes, rest, length, others⟩ := ih (turn + 1) holding
      (by rwa [Nat.add_right_comm])
    refine ⟨outcome :: outcomes, ?_, congrArg (· + 1) length, fun later other found => ?_⟩
    · simp only [runs, ended, rest, ok_bind, pure_eq_ok]
    · cases later with
      | zero =>
        cases found
        exact toured
      | succ later =>
        have behind := others later other found
        rwa [Nat.add_assoc, Nat.add_comm 1] at behind

end Turns

/-- Walkthroughs one after the other on a ledger at the bottom, opened with any budget or with none,
over a parent that supplies as many records as they want within the budget. -/
theorem runs_leave_nothing (bottom : T.below i = none) (budgets : Fin T.size → Option Nat)
    (turns : Nat) (parent : π) (supplies : Parent.Supplies (recordLayout π (some i))
      (within (budgets i) (3 * turns)) parent) :
    ∃ outcomes, runs i turns (⟨.opened budgets parent, .empty⟩ : Depot T π) = .ok outcomes ∧
      outcomes.length = turns ∧
      ∀ turn outcome, outcomes[turn]? = some outcome → Toured i (budgets i) turn outcome := by
  have holding : Holding i (budgets i) parent (within (budgets i) (3 * 0)) []
      (⟨.opened budgets parent, .empty⟩ : Depot T π) := by
    have nothing : within (budgets i) (3 * 0) = 0 :=
      within_eq_self.2 fun n _ => Nat.zero_le n
    rw [nothing]
    exact ⟨.opened i budgets parent, Memory.holds_empty⟩
  obtain ⟨outcomes, ended, length, toured⟩ := runs_toured bottom supplies turns 0 holding
    (by rw [Nat.zero_add])
  refine ⟨outcomes, ended, length, fun turn outcome found => ?_⟩
  have this_one := toured turn outcome found
  rwa [Nat.zero_add] at this_one

/-- Over a heap a budget of seven is enough for two walkthroughs, and a third gets one node. -/
theorem runs_leave_nothing_single :
    let only : Fin Layering.single.size := (0 : Fin 1)
    Parent.Supplies (recordLayout Heap (some only)) (within (some 7) (3 * 3)) Heap.fresh ∧
      ∃ first second third : Outcome .single Heap,
        runs only 3 ⟨.opened (fun _ => some 7) Heap.fresh, .empty⟩ = .ok [first, second, third] ∧
        first.result = .ok () ∧ second.result = .ok () ∧ third.result = .error .refused ∧
        (third.depot.store.ledger only).releases = 7 := by
  intro only
  have supplies : Parent.Supplies (recordLayout Heap (some only)) (within (some 7) (3 * 3))
      Heap.fresh := Heap.supplies (by decide) (by decide) rfl _
  refine ⟨supplies, ?_⟩
  obtain ⟨outcomes, ended, length, toured⟩ :=
    runs_leave_nothing (T := .single) (i := only) rfl (fun _ => some 7) 3 Heap.fresh supplies
  obtain ⟨first, second, third, rfl⟩ := List.length_eq_three.1 length
  have enough : ∀ n, some 7 = some n → 3 * 2 ≤ n := fun n same => by cases same; decide
  refine ⟨first, second, third, ended, (toured 0 first rfl).succeeds.2 fun n same => ?_,
    (toured 1 second rfl).succeeds.2 enough, ?_, (toured 2 third rfl).cleared.releases⟩
  · exact Nat.le_trans (by decide) (enough n same)
  · cases result : third.result with
    | ok =>
      have allowed := (toured 2 third rfl).succeeds.1 result 7 rfl
      exact absurd allowed (by decide)
    | error failure =>
      rw [((toured 2 third rfl).broken failure result).1]

end Runs

end Walkthrough

end ChainLedger
