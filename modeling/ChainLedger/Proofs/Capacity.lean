import ChainLedger.Proofs.Construction
import ChainLedger.Proofs.Portability

set_option autoImplicit false

namespace ChainLedger

namespace Arena

/-- Where the block stands that is granted after `count` others of the same layout. -/
def place (layout : Layout) (arena : Arena) (count : Nat) : Nat :=
  roundUp arena.next layout.align + count * layout.size

def room (layout : Layout) (arena : Arena) : Nat :=
  (arena.stop - roundUp arena.next layout.align) / layout.size

variable {layout : Layout} {arena : Arena}

/-- A block takes the first place, and those that are left are the places behind it. The blocks of
a layout can stand side by side if its size is a multiple of its alignment. -/
theorem allocate_of_room (aligned : 0 < layout.align) (divides : layout.align ∣ layout.size)
    (left : arena.room layout ≠ 0) :
    ∃ after, arena.allocate layout = (some (arena.place layout 0), after) ∧
      after.room layout + 1 = arena.room layout ∧
      ∀ count, after.place layout count = arena.place layout (count + 1) := by
  obtain ⟨positive, fits⟩ : 0 < layout.size ∧
      layout.size ≤ arena.stop - roundUp arena.next layout.align :=
    Nat.div_pos_iff.1 (Nat.pos_of_ne_zero left)
  have within : roundUp arena.next layout.align + layout.size ≤ arena.stop := by omega
  have behind : roundUp (roundUp arena.next layout.align + layout.size) layout.align =
      roundUp arena.next layout.align + layout.size :=
    roundUp_of_dvd _ _ aligned ((Nat.dvd_add_right (dvd_roundUp _ _)).2 divides)
  refine ⟨{ arena with next := roundUp arena.next layout.align + layout.size }, ?_, ?_,
    fun count => ?_⟩
  · simp only [allocate, place, within, ↓reduceIte, Nat.zero_mul, Nat.add_zero]
  · have rest : arena.stop - roundUp arena.next layout.align =
        arena.stop - (roundUp arena.next layout.align + layout.size) + layout.size := by omega
    rw [room, room, behind, rest, Nat.add_div_right _ positive]
  · rw [place, place, behind, Nat.succ_mul]
    omega

theorem allocate_of_full (positive : layout.size ≠ 0) (full : arena.room layout = 0) :
    arena.allocate layout = (none, arena) := by
  have short := (Nat.div_eq_zero_iff.1 full).resolve_left positive
  have beyond : ¬ roundUp arena.next layout.align + layout.size ≤ arena.stop := by omega
  simp only [allocate, beyond, ↓reduceIte]

theorem place_ne (positive : layout.size ≠ 0) (count : Nat) :
    arena.place layout 0 ≠ arena.place layout (count + 1) := by
  rw [place, place, Nat.succ_mul]
  omega

end Arena

variable {T : Layering}

/-- The nodes of values for which records are allocated one after the other, the last in front. -/
def Tail.stack (owner : Handle T) (place : Nat → Nat) (pending : List Int64) : Tail T :=
  (pending.mapIdx fun count value => ⟨place count, value, owner⟩).reverse

namespace Tail

variable {owner : Handle T} {place : Nat → Nat} {pending : List Int64}

theorem stack_cons (value : Int64) : stack owner place (value :: pending) =
    stack owner (fun count => place (count + 1)) pending ++ [⟨place 0, value, owner⟩] := by
  rw [stack, List.mapIdx_cons, List.reverse_cons]
  rfl

theorem length_stack : (stack owner place pending).length = pending.length := by
  rw [stack, List.length_reverse, List.length_mapIdx]

theorem values_stack : values (stack owner place pending) = pending.reverse := by
  induction pending generalizing place with
  | nil => rfl
  | cons value pending ih =>
    rw [stack_cons, List.reverse_cons, ← ih]
    exact List.map_append

theorem mem_stack {node : Node T} (member : node ∈ stack owner place pending) :
    node.owner = owner ∧ ∃ count < pending.length, node.addr = place count := by
  obtain ⟨count, inside, rfl⟩ := List.mem_mapIdx.1 (List.mem_reverse.1 member)
  exact ⟨rfl, count, inside, rfl⟩

end Tail

/-- How many more nodes there is room for at a ledger over an arena: as many as there are places in
the arena, and no more than the budgets on the way to it allow. -/
def Store.capacity (i : Fin T.size) (store : Store T Arena) : Nat :=
  (store.allowance (T.path i)).elim (store.parent.room (recordLayout Arena (some i)))
    (min (store.parent.room (recordLayout Arena (some i))))

/-- Where the record of a node will stand that is allocated after `count` others. -/
def Store.place (i : Fin T.size) (store : Store T Arena) (count : Nat) : Nat :=
  store.parent.place (recordLayout Arena (some i)) count

section Steps

variable {i : Fin T.size} {store after : Store T Arena}

theorem Store.capacity_eq_zero : store.capacity i = 0 ↔
    (∃ j ∈ T.path i, (store.ledger j).IsSpent) ∨
      store.parent.room (recordLayout Arena (some i)) = 0 := by
  rw [← allowance_eq_zero, capacity]
  cases store.allowance (T.path i) with
  | none => simp only [Option.elim_none, reduceCtorEq, false_or]
  | some budget =>
    simp only [Option.elim_some, Option.some.injEq]
    omega

theorem Node.allocate_of_capacity (demand : Demand) (value : Int64)
    (left : store.capacity i ≠ 0)
    (clear : ∀ j ∈ T.path i, (store.ledger j).isLive (store.place i 0) = false) :
    ∃ after, Node.allocate demand (some i) value store =
        (.ok ⟨store.place i 0, value, some i⟩, after) ∧
      after.capacity i + 1 = store.capacity i ∧
      (∀ count, after.place i count = store.place i (count + 1)) ∧
      ∀ j ∈ T.path i, ∀ addr, addr ≠ store.place i 0 →
        (after.ledger j).isLive addr = (store.ledger j).isLive addr := by
  obtain ⟨unspent, room⟩ := not_or.1 (mt Store.capacity_eq_zero.2 left)
  obtain ⟨arena, granted, less, behind⟩ := Arena.allocate_of_room
    (recordLayout_proper (π := Arena) (some i)).1 (show 8 ∣ 24 by decide) room
  have positive := (recordLayout_proper (π := Arena) (some i)).2
  have unspent : ∀ j ∈ T.path i, ¬ (store.ledger j).IsSpent := fun j on spent =>
    unspent ⟨j, on, spent⟩
  have accepted : ∀ j ∈ T.path i, ((store.ledger j).enter (store.place i 0)
      (recordLayout Arena (some i))).1 = none := fun j on =>
    Ledger.enter_accepted_iff.2 (Or.inr (clear j on))
  obtain ⟨between, asked⟩ :=
    Store.allocateAlong_of_granted (T.path_nodup i) unspent granted accepted
  obtain ⟨granted', -, -, ledgers⟩ := Store.allocateAlong_ok (T.path_nodup i) asked
  have parent : between.parent = arena := (congrArg Prod.snd (granted.symm.trans granted')).symm
  refine ⟨between.emit (.nodeAllocated value (store.place i 0)), ?_, ?_, fun count => ?_,
    fun j on addr away => ?_⟩
  · rw [Node.allocate, Store.allocate, Handle.path, asked]
    rfl
  · have allowance : between.allowance (T.path i) = (store.allowance (T.path i)).map (· - 1) :=
      Store.allowance_pred fun j on => by rw [ledgers, if_pos on, Ledger.budget_enter]
    rw [Store.capacity] at left
    show (between.allowance (T.path i)).elim _ _ + 1 = _
    rw [Store.capacity, allowance, Store.parent_emit, parent]
    cases limit : store.allowance (T.path i) with
    | none => exact less
    | some budget =>
      rw [limit, Option.elim_some] at left
      simp only [Option.map_some, Option.elim_some]
      omega
  · rw [Store.place, Store.parent_emit, parent, behind]
    rfl
  · rw [Store.ledger_emit, ledgers, if_pos on, Ledger.isLive_eq, Ledger.live_enter,
      if_neg fun both => away both.1.symm, Ledger.isLive_eq]

theorem Store.refused_of_capacity (none_left : store.capacity i = 0) :
    ∃ after, store.allocate (some i) (recordLayout Arena (some i)) = (.error .refused, after) := by
  by_cases spent : ∃ j ∈ T.path i, (store.ledger j).IsSpent
  · exact ⟨_, allocateAlong_of_spent spent⟩
  · have full := (capacity_eq_zero.1 none_left).resolve_left spent
    have unspent : ∀ j ∈ T.path i, ¬ (store.ledger j).IsSpent := fun j on here =>
      spent ⟨j, on, here⟩
    exact ⟨_, allocateAlong_of_full unspent
      (Arena.allocate_of_full (recordLayout_proper (some i)).2 full)⟩

/-- Up to the capacity nodes are allocated, each for one less. -/
theorem Allocated.of_capacity (demand : Demand) {pending : List Int64}
    (few : pending.length ≤ store.capacity i)
    (clear : ∀ count < pending.length, ∀ j ∈ T.path i,
      (store.ledger j).isLive (store.place i count) = false) :
    ∃ after, Allocated demand (some i) pending (Tail.stack (some i) (store.place i) pending)
        store after ∧ after.capacity i + pending.length = store.capacity i := by
  induction pending generalizing store with
  | nil => exact ⟨store, .nil, rfl⟩
  | cons value pending ih =>
    rw [List.length_cons] at few clear ⊢
    obtain ⟨between, granted, less, behind, kept⟩ :=
      Node.allocate_of_capacity demand value (by omega) (clear 0 (Nat.succ_pos _))
    have shifted : between.place i = fun count => store.place i (count + 1) := funext behind
    have still : ∀ count < pending.length, ∀ j ∈ T.path i,
        (between.ledger j).isLive (between.place i count) = false := by
      intro count inside j on
      have away : store.place i 0 ≠ store.place i (count + 1) :=
        Arena.place_ne (recordLayout_proper (some i)).2 count
      rw [behind, kept j on _ away.symm]
      exact clear (count + 1) (Nat.succ_lt_succ inside) j on
    obtain ⟨after, allocated, rest⟩ := ih (by omega) still
    rw [shifted] at allocated
    refine ⟨after, ?_, by omega⟩
    rw [Tail.stack_cons]
    exact .cons granted allocated

end Steps

namespace Depot

variable {i : Fin T.size} {nodes : Tail T} {before after : Depot T Arena}

/-- A build has ended with a list of nodes: they are written down, they are in the books, and the
memory is the one of before with their list in it. -/
structure Completed (i : Fin T.size) (nodes : Tail T) (before after : Depot T Arena) : Prop where
  events : after.store.events = before.store.events ++
    nodes.reverse.map fun node => .nodeAllocated node.value node.addr
  list : after.memory.gather nodes.link = .ok nodes
  others : ∀ addr, addr ∉ nodes.map Node.addr → after.memory.get? addr = before.memory.get? addr
  books : HandedOut (some i) nodes before.store after.store

/-- A build has been given up with some of its nodes allocated. They are written down, then the note
of a budget that is used up, then the end of the build and the releases. Nothing else is left of
them but counts and spent budgets. -/
structure Abandoned (i : Fin T.size) (total : Nat) (nodes : Tail T) (before after : Depot T Arena) :
    Prop where
  events : after.store.events = before.store.events ++
    (nodes.reverse.map fun node => .nodeAllocated node.value node.addr) ++
    (if ∃ j ∈ T.path i, (before.store.ledger j).budget = some nodes.length then
      [.requestRefused (recordLayout Arena (some i))] else []) ++
    [.buildAbandoned nodes.length total] ++
    nodes.map fun node => .nodeReleased node.value node.addr
  books : TakenBack (some i) nodes.length before.store after.store
  memory : after.memory = before.memory

end Depot

section Builds

variable {i : Fin T.size} {nodes : Tail T} {pending more : List Int64} {cut : Store T Arena}
  {depot after : Depot T Arena} {rest : Multiset (Nat × Record T)}
  {answer : Except Failure (Option Nat)}

/-- A refusal is noted if one of the budgets was as large as the number of nodes before it. -/
theorem HandedOut.refusalNote_eq {before refused : Store T Arena}
    (handed : HandedOut (some i) nodes before refused) (layout : Layout) :
    refused.refusalNote (some i) layout =
      if ∃ j ∈ T.path i, (before.ledger j).budget = some nodes.length then
        [.requestRefused layout] else [] := by
  refine if_congr (Store.any_isSpent.trans (exists_congr fun j => and_congr_right fun on => ?_)) rfl
    rfl
  exact (handed.budget j on).eq_zero_iff

theorem Allocated.completed (allocated : Allocated .attempt (some i) pending nodes depot.store cut)
    (holds : depot.memory.Holds rest) (built : Depot.Built rest (.ok nodes, cut) (answer, after)) :
    answer = .ok nodes.link ∧ depot.Completed i nodes after := by
  obtain ⟨answered, rfl, held⟩ : answer = .ok nodes.link ∧ after.store = cut ∧
    after.memory.Holds (nodes.records + rest) := built
  have records : nodes.records.map Prod.fst = ↑(nodes.map Node.addr) :=
    Tail.map_fst_segment nodes none
  refine ⟨answered, allocated.events, held.gather, fun addr away => ?_, allocated.handedOut⟩
  exact holds.get?_of_add held (by rwa [records, Multiset.mem_coe])

/-- A build that is refused a node gives back those before it, and none of the releases ends in a
fault. -/
theorem Allocated.abandoned {value : Int64} {total : Nat}
    (allocated : Allocated .attempt (some i) pending nodes depot.store cut)
    (full : cut.capacity i = 0)
    (free : ∀ node ∈ nodes, ∀ j ∈ T.path i, (depot.store.ledger j).live[node.addr]? = none)
    (holds : depot.memory.Holds rest)
    (built : Depot.Built rest
      (Chain.buildOnto .attempt (some i) total (value :: more) nodes cut) (answer, after)) :
    answer = .error .refused ∧ depot.Abandoned i total nodes after := by
  obtain ⟨refused, asked⟩ := Store.refused_of_capacity full
  have tried : Node.allocate .attempt (some i) value cut = (.error .refused, refused) := by
    rw [Node.allocate, asked]
    rfl
  have ledgers := (Store.allocateAlong_refused asked).1
  have stands : Stands nodes (some i) (refused.emit (.buildAbandoned nodes.length total)) :=
    allocated.stands_alone.of_ledger_eq ledgers
  obtain ⟨quiet, given⟩ := stands.discard
  have handed : HandedOut (some i) nodes depot.store refused :=
    allocated.handedOut.of_ledger_eq ledgers
  have noted : HandedOut (some i) nodes depot.store
      (refused.emit (.buildAbandoned nodes.length total)) := handed.of_ledger_eq fun _ => rfl
  rw [Chain.buildOnto_of_refused total more nodes tried, quiet] at built
  obtain ⟨answered, store, held⟩ := built
  have survived : ∀ layout, Failure.refused ≠ .aborted layout := by
    rintro layout ⟨⟩
  refine ⟨answered, ?_, ?_, (held survived).unique holds⟩
  · rw [store, Tail.events_discard, Store.events_emit, Store.events_of_refused asked,
      allocated.events, handed.refusalNote_eq]
  · rw [store]
    exact noted.takenBack given stands.owned free

theorem Allocated.outcome (allocated : Allocated .attempt (some i) pending nodes depot.store cut)
    (total : Nat) (full : more ≠ [] → cut.capacity i = 0)
    (free : ∀ node ∈ nodes, ∀ j ∈ T.path i, (depot.store.ledger j).live[node.addr]? = none) :
    Outcome (∃ node ∈ nodes, depot.memory.get? node.addr ≠ none)
      (fun (answer, after) =>
        (more = [] → answer = .ok nodes.link ∧ depot.Completed i nodes after) ∧
        (more ≠ [] → answer = .error .refused ∧ depot.Abandoned i total nodes after))
      (depot.buildOnto .attempt (some i) total (pending ++ more) 0 none) := by
  obtain ⟨rest, holds⟩ := depot.memory.exists_holds
  have alone : depot.memory.Holds (Tail.records [] + rest) := holds.cast (zero_add rest).symm
  have apart := allocated.stands_alone.apart (List.ne_nil_of_mem (Layering.mem_path_self i))
  have stopped : ∀ value ∈ more.head?, ∃ failure refused,
      Node.allocate .attempt (some i) value cut = (.error failure, refused) := by
    intro value next
    have some_more : more ≠ [] := List.ne_nil_of_mem (List.mem_of_mem_head? next)
    obtain ⟨refused, asked⟩ := Store.refused_of_capacity (full some_more)
    obtain ⟨failure, failed, -⟩ := Node.failed_of_asked .attempt value asked
    exact ⟨failure, refused, failed⟩
  refine (allocated.build_outcome total stopped apart alone).imp fun ⟨answer, after⟩ built => ?_
  rw [allocated.buildOnto, List.append_nil] at built
  refine ⟨fun no_more => ?_, fun some_more => ?_⟩
  · subst no_more
    exact allocated.completed holds built
  · obtain ⟨value, further, rfl⟩ := List.exists_cons_of_ne_nil some_more
    exact allocated.abandoned (full some_more) free holds built

/-- Where no place is live no node to come is on record. -/
theorem Tail.free_stack {store : Store T Arena} (clear : ∀ count < pending.length, ∀ j ∈ T.path i,
      (store.ledger j).isLive (store.place i count) = false) :
    ∀ node ∈ stack (some i) (store.place i) pending, ∀ j ∈ T.path i,
      (store.ledger j).live[node.addr]? = none := by
  intro node member j on
  obtain ⟨-, count, inside, place⟩ := mem_stack member
  have free := clear count inside j on
  rwa [← place, Ledger.isLive_eq, Option.isSome_eq_false_iff, Option.isNone_iff_eq_none] at free

end Builds

/-- A chain can be built from no more values than there is capacity for. One that is too long is
refused once the capacity is used up, and the nodes of its last values, which had been allocated by
then, are given back. All this is so if none of the places to come is live in a ledger on the way to
the arena; and if a record stands at one of them, it may be lost instead. -/
theorem Depot.build_attempt (i : Fin T.size) (values : List Int64) (depot : Depot T Arena)
    (clear : ∀ count < min values.length (depot.store.capacity i), ∀ j ∈ T.path i,
      (depot.store.ledger j).isLive (depot.store.place i count) = false) :
    let left := depot.store.capacity i
    let nodes := Tail.stack (some i) (depot.store.place i) (values.reverse.take left)
    Outcome (∃ node ∈ nodes, depot.memory.get? node.addr ≠ none)
      (fun (answer, after) =>
        (values.length ≤ left → answer = .ok nodes.link ∧ Tail.values nodes = values ∧
          depot.Completed i nodes after) ∧
        (left < values.length → answer = .error .refused ∧ nodes.length = left ∧
          Tail.values nodes = values.drop (values.length - left) ∧
          depot.Abandoned i values.length nodes after))
      (depot.build .attempt (some i) values) := by
  intro left nodes
  have split : values.reverse.take left ++ values.reverse.drop left = values.reverse :=
    List.take_append_drop left values.reverse
  have no_more : values.reverse.drop left = [] ↔ values.length ≤ left := by
    rw [List.drop_eq_nil_iff, List.length_reverse]
  have length : (values.reverse.take left).length = min left values.length := by
    rw [List.length_take, List.length_reverse]
  have few : (values.reverse.take left).length ≤ left := length ▸ Nat.min_le_left _ _
  have clear_places : ∀ count < (values.reverse.take left).length, ∀ j ∈ T.path i,
      (depot.store.ledger j).isLive (depot.store.place i count) = false :=
    fun count inside => clear count (by omega)
  obtain ⟨cut, allocated, unused⟩ := Allocated.of_capacity .attempt few clear_places
  have full : values.reverse.drop left ≠ [] → cut.capacity i = 0 := by
    intro some_more
    have long := mt no_more.2 some_more
    omega
  have outcome := allocated.outcome values.length full (Tail.free_stack clear_places)
  rw [split] at outcome
  refine outcome.imp fun ⟨answer, after⟩ ⟨completed, abandoned⟩ => ⟨fun whole => ?_, fun long => ?_⟩
  · obtain ⟨answered, completed⟩ := completed (no_more.2 whole)
    refine ⟨answered, ?_, completed⟩
    rw [Tail.values_stack, List.take_of_length_le (by rwa [List.length_reverse]),
      List.reverse_reverse]
  · obtain ⟨answered, abandoned⟩ := abandoned (mt no_more.1 (Nat.not_le.2 long))
    refine ⟨answered, ?_, ?_, abandoned⟩
    · rw [Tail.length_stack, length, Nat.min_eq_left (Nat.le_of_lt long)]
    · rw [Tail.values_stack, List.reverse_take, List.reverse_reverse, List.length_reverse]

/-- Two ledgers, of which the inner one has budget left for three, on an arena that is full after
three records too. -/
theorem Depot.build_attempt_fork :
    let i : Fin Layering.fork.size := (1 : Fin 3)
    let budgets : Fin 3 → Option Nat := fun j => if j = 0 then some 3 else some 5
    let depot : Depot .fork Arena := ⟨.opened budgets ⟨4099, 4185⟩, .empty⟩
    (∀ count < min 5 (depot.store.capacity i), ∀ j ∈ Layering.fork.path i,
      (depot.store.ledger j).isLive (depot.store.place i count) = false) ∧
    ∃ after, depot.build .attempt (some i) [1, 2, 3, 4, 5] = .ok (.error .refused, after) ∧
      after.store.events = [.nodeAllocated 5 4104, .nodeAllocated 4 4128, .nodeAllocated 3 4152,
        .requestRefused ⟨24, 8⟩, .buildAbandoned 3 5, .nodeReleased 3 4152, .nodeReleased 4 4128,
        .nodeReleased 5 4104] ∧
      TakenBack (some i) 3 depot.store after.store ∧ after.memory = .empty := by
  intro i budgets depot
  let nodes : Tail .fork := [⟨4152, 3, some i⟩, ⟨4128, 4, some i⟩, ⟨4104, 5, some i⟩]
  have clear : ∀ count < min 5 (depot.store.capacity i), ∀ j ∈ Layering.fork.path i,
      (depot.store.ledger j).isLive (depot.store.place i count) = false := by
    decide +kernel
  have room : depot.store.capacity i = 3 := by decide +kernel
  have stack : Tail.stack (some i) (depot.store.place i) [5, 4, 3] = nodes := by decide +kernel
  have noted : ∃ j ∈ Layering.fork.path i,
      (depot.store.ledger j).budget = some nodes.length := by decide +kernel
  have outcome := build_attempt i [1, 2, 3, 4, 5] depot clear
  refine ⟨clear, ?_⟩
  rcases built : depot.build .attempt (some i) [1, 2, 3, 4, 5] with hazard | ⟨answer, after⟩
  · rw [built] at outcome
    cases outcome with
    | overwrite taken =>
      obtain ⟨node, -, found⟩ := taken
      exact absurd (Memory.get?_empty node.addr) found
  · rw [built] at outcome
    obtain ⟨rfl, -, -, abandoned⟩ := outcome.result.2 (by rw [room]; decide)
    rw [room] at abandoned
    replace abandoned : depot.Abandoned i 5
      (Tail.stack (some i) (depot.store.place i) [5, 4, 3]) after := abandoned
    rw [stack] at abandoned
    exact ⟨after, rfl, abandoned.events.trans (by rw [if_pos noted]; rfl), abandoned.books,
      abandoned.memory⟩

end ChainLedger
