import ChainLedger.Proofs.Capacity
import ChainLedger.Proofs.Supply
import ChainLedger.Summation
import Mathlib.Algebra.BigOperators.Ring.Finset
import Mathlib.Algebra.Order.BigOperators.Group.List
import Mathlib.Algebra.Order.Group.Nat
import Mathlib.Data.Nat.Choose.Basic

set_option autoImplicit false

namespace ChainLedger

section Numbers

/-- The numbers that fit into 64 bits with a sign. -/
def InRange (n : Int) : Prop :=
  Int64.minValue.toInt ≤ n ∧ n ≤ Int64.maxValue.toInt

theorem toInt_add_of_inRange {x y : Int64} (within : InRange (x.toInt + y.toInt)) :
    (x + y).toInt = x.toInt + y.toInt := by
  obtain ⟨low, high⟩ := within
  rw [Int64.toInt_minValue] at low
  rw [Int64.toInt_maxValue] at high
  rw [Int64.toInt_add]
  exact Int.bmod_eq_of_le (by omega) (by omega)

/-- The sum of the first few values, as a number without a bound. -/
def partialSum (values : List Int64) (read : Nat) : Int :=
  ((values.take read).map Int64.toInt).sum

theorem partialSum_cons (value : Int64) (values : List Int64) (read : Nat) :
    partialSum (value :: values) (read + 1) = value.toInt + partialSum values read := by
  rw [partialSum, List.take_succ_cons, List.map_cons, List.sum_cons]
  rfl

/-- A running sum is exact if it stays in the range. -/
theorem toInt_foldl_add {values : List Int64} {sum : Int64}
    (within : ∀ read, InRange (sum.toInt + partialSum values read)) :
    (values.foldl (· + ·) sum).toInt = sum.toInt + (values.map Int64.toInt).sum := by
  induction values generalizing sum with
  | nil => exact (Int.add_zero _).symm
  | cons value values ih =>
    -- The first value moves into the running sum, which shifts the partial sums by one place.
    have first : (sum + value).toInt = sum.toInt + value.toInt := by
      apply toInt_add_of_inRange
      have one := within 1
      rwa [partialSum_cons, partialSum, List.take_zero, List.map_nil, List.sum_nil,
        Int.add_zero] at one
    have later : ∀ read, InRange ((sum + value).toInt + partialSum values read) := by
      intro read
      rw [first, Int.add_assoc, ← partialSum_cons]
      exact within (read + 1)
    rw [List.foldl_cons, ih later, first, List.map_cons, List.sum_cons, Int.add_assoc]

theorem sum_range (count : Nat) : (List.range count).sum = count * (count - 1) / 2 := by
  induction count with
  | zero => rfl
  | succ count ih =>
    rw [List.range_succ, List.sum_append, ih, List.sum_singleton, Nat.triangle_succ]

theorem inRange_triangle_iff {count : Nat} :
    InRange ↑(count * (count - 1) / 2) ↔ count ≤ 2 ^ 32 := by
  rw [InRange, Int64.toInt_minValue, Int64.toInt_maxValue]
  constructor
  · rintro ⟨-, high⟩
    by_contra beyond
    have product : (2 ^ 32 + 1) * 2 ^ 32 ≤ count * (count - 1) :=
      Nat.mul_le_mul (by omega) (by omega)
    omega
  · intro bounded
    have product : count * (count - 1) ≤ 2 ^ 32 * (2 ^ 32 - 1) :=
      Nat.mul_le_mul bounded (by omega)
    omega

/-- The numbers below a bound, from the largest down. -/
def countdown (count : Nat) : List Nat :=
  (List.range count).reverse

theorem sum_countdown (count : Nat) : (countdown count).sum = count * (count - 1) / 2 := by
  rw [countdown, List.sum_reverse, sum_range]

theorem map_toInt_countdown {count : Nat} (bounded : count ≤ 2 ^ 32) :
    ((countdown count).map Int64.ofNat).map Int64.toInt = (countdown count).map Nat.cast := by
  rw [List.map_map]
  refine List.map_congr_left fun number member => ?_
  have below := List.mem_range.1 (List.mem_reverse.1 member)
  exact Int64.toInt_ofNat_of_lt (by omega)

/-- No partial sum of the numbers below a bound exceeds the sum of all of them. -/
theorem inRange_partialSum_countdown {count : Nat} (bounded : count ≤ 2 ^ 32) (read : Nat) :
    InRange (partialSum ((countdown count).map Int64.ofNat) read) := by
  have exact_sum : partialSum ((countdown count).map Int64.ofNat) read =
      ↑((countdown count).take read).sum := by
    rw [partialSum, List.map_take, map_toInt_countdown bounded, Nat.cast_list_sum, List.map_take]
  have part : ((countdown count).take read).sum ≤ count * (count - 1) / 2 := by
    rw [← sum_countdown]
    exact (List.take_sublist _ _).sum_le_sum fun _ _ => Nat.zero_le _
  obtain ⟨-, high⟩ := inRange_triangle_iff.2 bounded
  rw [exact_sum]
  refine ⟨?_, by omega⟩
  rw [Int64.toInt_minValue]
  omega

theorem toInt_sum_countdown {count : Nat} (bounded : count ≤ 2 ^ 32) :
    (((countdown count).map Int64.ofNat).foldl (· + ·) 0).toInt = ↑(count * (count - 1) / 2) := by
  have within : ∀ read, InRange ((0 : Int64).toInt +
      partialSum ((countdown count).map Int64.ofNat) read) := by
    intro read
    rw [Int64.toInt_zero, Int.zero_add]
    exact inRange_partialSum_countdown bounded read
  rw [toInt_foldl_add within, Int64.toInt_zero, Int.zero_add, map_toInt_countdown bounded,
    ← Nat.cast_list_sum, sum_countdown]

end Numbers

namespace Arena

variable {layout : Layout} {arena reached after : Arena} {count addr : Nat} {out : Multiset Nat}

/-- What an arena has come to by granting some blocks of a layout: they stand at the first places,
and what is left is the arena behind them. -/
structure Used (layout : Layout) (arena : Arena) (count : Nat) (out : Multiset Nat)
    (reached : Arena) : Prop where
  room : reached.room layout + count = arena.room layout
  places : ∀ more, reached.place layout more = arena.place layout (count + more)
  out : ∀ addr ∈ out, ∃ earlier < count, addr = arena.place layout earlier

theorem Used.granted (used : Used layout arena count out reached) (aligned : 0 < layout.align)
    (divides : layout.align ∣ layout.size) (positive : layout.size ≠ 0)
    (granted : reached.allocate layout = (some addr, after)) :
    Used layout arena (count + 1) (addr ::ₘ out) after := by
  have left : reached.room layout ≠ 0 := by
    intro full
    cases (allocate_of_full positive full).symm.trans granted
  obtain ⟨next, handed, less, behind⟩ := allocate_of_room aligned divides left
  cases handed.symm.trans granted
  refine ⟨?_, fun more => ?_, fun other member => ?_⟩
  · rw [← used.room, ← less, Nat.add_assoc, Nat.add_comm 1]
  · rw [behind, used.places, Nat.add_right_comm, Nat.add_assoc]
  · rcases Multiset.mem_cons.1 member with rfl | older
    · exact ⟨count, Nat.lt_succ_self count, used.places 0⟩
    · obtain ⟨earlier, before, stands⟩ := used.out other older
      exact ⟨earlier, Nat.lt_succ_of_lt before, stands⟩

theorem used_of_served (aligned : 0 < layout.align) (divides : layout.align ∣ layout.size)
    (positive : layout.size ≠ 0) (served : Parent.Served layout arena count out reached) :
    Used layout arena count out reached := by
  induction served with
  | start => exact ⟨rfl, fun more => by rw [Nat.zero_add],
      fun addr member => absurd member (Multiset.notMem_zero addr)⟩
  | granted _ granted ih => exact ih.granted aligned divides positive granted
  | returned _ ih =>
    exact ⟨ih.room, ih.places, fun other member => ih.out other (Multiset.mem_cons_of_mem member)⟩

theorem supplies (aligned : 0 < layout.align) (divides : layout.align ∣ layout.size)
    (positive : layout.size ≠ 0) (arena : Arena) :
    Parent.Supplies layout (arena.room layout) arena := by
  intro count out reached served few
  have used := used_of_served aligned divides positive served
  have left : reached.room layout ≠ 0 := by
    have room := used.room
    omega
  -- The next block stands at place `count`, and all blocks that are out stand at earlier ones.
  obtain ⟨after, handed, -, -⟩ := allocate_of_room aligned divides left
  refine ⟨_, after, handed, fun member => ?_⟩
  obtain ⟨earlier, before, stands⟩ := used.out _ member
  rw [used.places, place, place, Nat.add_zero, Nat.add_left_cancel_iff] at stands
  have same : count = earlier := Nat.eq_of_mul_eq_mul_right (Nat.pos_of_ne_zero positive) stands
  omega

/-- There is just enough room in an arena that is opened with 24 bytes for each record. -/
theorem supplies_ofCapacity {T : Layering} (count : Nat) :
    Parent.Supplies (recordLayout Arena (none : Handle T)) count (ofCapacity (24 * count)) := by
  have room : (ofCapacity (24 * count)).room ⟨24, 8⟩ = count := by
    have start : roundUp base 8 = base := by decide
    show (base + 24 * count - roundUp base 8) / 24 = count
    rw [start, Nat.add_sub_cancel_left, Nat.mul_div_cancel_left count (by decide)]
  have supplies : Parent.Supplies ⟨24, 8⟩ _ (ofCapacity (24 * count)) :=
    supplies (by decide) (by decide) (by decide) _
  rwa [room] at supplies

end Arena

section AddingUp

variable {T : Layering} {memory : Memory T} {rest : Multiset (Nat × Record T)}

theorem Memory.addUp_some {addr : Nat} {record : Record T} (found : memory.get? addr = some record)
    (sum : Int64) :
    memory.addUp sum (some addr) = (memory.erase addr).addUp (sum + record.value) record.next := by
  rw [addUp]
  split
  · next absent => rw [found] at absent; cases absent
  · next other same =>
    rw [found, Option.some.injEq] at same
    rw [same]

/-- Adding up behind the link of a list adds up its values from front to back. -/
theorem Memory.Holds.addUp {tail : Tail T} (holds : memory.Holds (tail.records + rest))
    (sum : Int64) : memory.addUp sum tail.link = .ok ((Tail.values tail).foldl (· + ·) sum) := by
  induction tail generalizing memory sum with
  | nil =>
    rw [Tail.link_nil, Memory.addUp]
    rfl
  | cons node others ih =>
    rw [Tail.records_cons, Multiset.cons_add] at holds
    rw [Tail.link_cons, Memory.addUp_some holds.get?, ih holds.erase]
    rfl

end AddingUp

variable {T : Layering} {π : Type} [Parent π]

/-- A list whose records are all that a depot holds, in blocks that come straight from the parent.
That many blocks have been granted since `first`, and none has been returned. -/
structure Piled (first : π) (nodes : Tail T) (depot : Depot T π) : Prop where
  served : Parent.Served (recordLayout π (none : Handle T)) first nodes.length
    ↑(nodes.map Node.addr) depot.store.parent
  owned : ∀ node ∈ nodes, node.owner = none
  memory : depot.memory.Holds nodes.records

namespace Piled

variable {first : π} {limit : Nat} {nodes : Tail T} {depot : Depot T π}

theorem opened (budgets : Fin T.size → Option Nat) (parent : π) :
    Piled parent [] (⟨.opened budgets parent, .empty⟩ : Depot T π) where
  served := .start
  owned := List.forall_mem_nil _
  memory := Memory.holds_empty

theorem push (piled : Piled first nodes depot)
    (supplies : Parent.Supplies (recordLayout π (none : Handle T)) limit first)
    (more : nodes.length < limit) (demand : Demand) (value : Int64) :
    ∃ node after, depot.pushOnto demand none value nodes.link =
        .ok (.ok (Tail.link (node :: nodes)), after) ∧
      node.value = value ∧ Piled first (node :: nodes) after := by
  obtain ⟨addr, parent, granted, apart⟩ := supplies _ _ _ piled.served more
  have free : depot.memory.get? addr = none := by
    apply piled.memory.get?_eq_none
    rwa [Tail.records, Tail.map_fst_segment]
  have allocated : Node.allocate demand none value depot.store = (.ok ⟨addr, value, none⟩,
      ({ depot.store with parent } : Store T π).emit (.nodeAllocated value addr)) := by
    simp only [Node.allocate, Store.allocate, Handle.path, Store.allocateAlong, granted]
  obtain ⟨left, pushed, held⟩ := Depot.pushOnto_of_free
    (piled.memory.cast (add_zero _).symm) free allocated
  refine ⟨_, _, pushed, rfl, ?_, List.forall_mem_cons.2 ⟨rfl, piled.owned⟩,
    held.cast (add_zero _)⟩
  exact piled.served.granted granted

theorem pushEach {values : List Int64} (piled : Piled first nodes depot)
    (supplies : Parent.Supplies (recordLayout π (none : Handle T)) limit first)
    (enough : nodes.length + values.length ≤ limit) (demand : Demand) :
    ∃ pile after, depot.pushEach demand none values nodes.link = .ok (.ok (), pile.link, after) ∧
      Tail.values pile = values.reverse ++ Tail.values nodes ∧ Piled first pile after := by
  induction values generalizing nodes depot with
  | nil => exact ⟨nodes, depot, rfl, rfl, piled⟩
  | cons value values ih =>
    rw [List.length_cons] at enough
    obtain ⟨node, between, pushed, rfl, longer⟩ := piled.push supplies (by omega) demand value
    obtain ⟨pile, after, rest, held, whole⟩ :=
      ih longer (by rw [List.length_cons]; omega)
    refine ⟨pile, after, ?_, ?_, whole⟩
    · simp only [Depot.pushEach, pushed, ok_bind, rest]
    · rw [held, List.reverse_cons, List.append_assoc]
      rfl

theorem discard (piled : Piled first nodes depot) :
    ∃ after, depot.discard nodes.link = .ok (none, after) ∧ after.memory = .empty := by
  obtain ⟨left, discarded, held⟩ :=
    Depot.discard_eq (piled.memory.cast (add_zero _).symm) depot.store
  have quiet : (Tail.discard nodes depot.store).1 = none :=
    (Tail.givenBack_discard_of_parent fun node member =>
      congrArg Handle.path (piled.owned node member)).1
  rw [quiet] at discarded
  exact ⟨_, discarded, held.unique Memory.holds_empty⟩

end Piled

namespace Summation

/-- A summation has gone as it should: the numbers were piled up from the largest down, no partial
sum of the pile leaves the range, and the answer is the sum of all numbers, with the pile gone. -/
structure Exact (count : Nat) (parent : π)
    (result : Except Hazard (Except Failure Int64 × Depot .bare π)) : Prop where
  piled : ∃ head depot nodes, pile count parent = .ok (.ok (), head, depot) ∧
    depot.memory.gather head = .ok nodes ∧
    (Tail.values nodes).map Int64.toInt = (countdown count).map Nat.cast ∧
    ∀ read, InRange (partialSum (Tail.values nodes) read)
  summed : ∃ sum depot, result = .ok (.ok sum, depot) ∧
    sum.toInt = ↑(count * (count - 1) / 2) ∧ depot.memory = .empty

variable {count : Nat} {parent : π}

/-- With enough supply all numbers are piled up. -/
theorem pile_of_supplies
    (supplies : Parent.Supplies (recordLayout π (none : Handle .bare)) count parent) :
    ∃ nodes depot, pile count parent = .ok (.ok (), Tail.link nodes, depot) ∧
      Tail.values nodes = (countdown count).map Int64.ofNat ∧ Piled parent nodes depot := by
  have start : Piled parent [] (⟨.opened (fun _ => none) parent, .empty⟩ : Depot .bare π) :=
    .opened _ parent
  have enough : ([] : Tail .bare).length + ((List.range count).map Int64.ofNat).length ≤ count := by
    rw [List.length_nil, List.length_map, List.length_range, Nat.zero_add]
  obtain ⟨nodes, depot, pushed, values, piled⟩ := start.pushEach supplies enough .insist
  refine ⟨nodes, depot, pushed, ?_, piled⟩
  rw [values, countdown, List.map_reverse]
  exact List.append_nil _

theorem exact_run (bounded : count ≤ 2 ^ 32)
    (supplies : Parent.Supplies (recordLayout π (none : Handle .bare)) count parent) :
    Exact count parent (run count parent) := by
  obtain ⟨nodes, depot, pile, values, piled⟩ := pile_of_supplies supplies
  obtain ⟨after, discarded, nothing⟩ := piled.discard
  have held := piled.memory.cast (add_zero _).symm
  refine ⟨⟨_, depot, nodes, pile, held.gather, ?_, ?_⟩, _, after, ?_,
    toInt_sum_countdown bounded, nothing⟩
  · rw [values, map_toInt_countdown bounded]
  · rw [values]
    exact inRange_partialSum_countdown bounded
  · simp only [run, pile, ok_bind, held.addUp, values, discarded, pure_eq_ok, Option.elim_none]

/-- The numbers below a bound are summed exactly over every parent that has the blocks for it, such
as the heap or an arena with room for just the records, up to the largest bound for which the sum
is in the range. -/
theorem sums_exact {count : Nat} (bounded : count ≤ 2 ^ 32) :
    (∀ {π : Type} [Parent π] (parent : π),
      Parent.Supplies (recordLayout π (none : Handle .bare)) count parent →
        Exact count parent (run count parent)) ∧
    Exact count Heap.fresh (overHeap count) ∧
    Exact count (Arena.ofCapacity (24 * count)) (overArena count) := by
  refine ⟨fun parent => exact_run bounded, exact_run bounded ?_, exact_run bounded ?_⟩
  · exact Heap.supplies (by decide) (by decide) rfl count
  · exact Arena.supplies_ofCapacity count

/-- The largest bound, also over an arena that is not opened for it and of which a few bytes are
taken. -/
theorem sums_exact_limit :
    let used : Arena := ⟨4099, 4104 + 24 * 2 ^ 32⟩
    2 ^ 32 ≤ 2 ^ 32 ∧
    Parent.Supplies (recordLayout Arena (none : Handle .bare)) (2 ^ 32) used ∧
    (∃ depot, run (2 ^ 32) used = .ok (.ok 9223372034707292160, depot)) ∧
    (∃ depot, overHeap (2 ^ 32) = .ok (.ok 9223372034707292160, depot)) ∧
    ∃ depot, overArena (2 ^ 32) = .ok (.ok 9223372034707292160, depot) := by
  intro used
  have supplies : Parent.Supplies ⟨24, 8⟩ (2 ^ 32) used := by
    have room : used.room ⟨24, 8⟩ = 2 ^ 32 := by decide
    rw [← room]
    exact Arena.supplies (by decide) (by decide) (by decide) used
  have answered : ∀ {π : Type} [Parent π] {parent : π}
      {result : Except Hazard (Except Failure Int64 × Depot .bare π)},
      Exact (2 ^ 32) parent result →
        ∃ depot, result = .ok (.ok 9223372034707292160, depot) := by
    intro π _ parent result exact_result
    obtain ⟨sum, depot, rfl, value, -⟩ := exact_result.summed
    obtain rfl : sum = 9223372034707292160 := Int64.toInt_inj.1 value
    exact ⟨depot, rfl⟩
  obtain ⟨general, heap, arena⟩ := sums_exact (Nat.le_refl (2 ^ 32))
  exact ⟨Nat.le_refl _, supplies, answered (general used supplies), answered heap, answered arena⟩

end Summation

end ChainLedger
