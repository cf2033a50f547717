import ChainLedger.Machine.Look
import Mathlib.Algebra.Order.Group.Multiset
import Mathlib.Tactic.Abel

/-
Segments: the records in which a list is kept, and what is found in a memory that holds them.
`Memory.Holds` says that a memory consists of certain records and of nothing else, so lists that
are held side by side share no record. Reading a list along its links finds it as it is
(`Memory.Holds.gather`, `Memory.Holds.stream`, `Memory.Holds.look`).
-/

set_option autoImplicit false

namespace ChainLedger

@[simp] theorem ok_bind {α β : Type} (result : α) (next : α → Except Hazard β) :
    (Except.ok result >>= next) = next result := rfl

theorem exists_of_bind_eq_ok {α β : Type} {first : Except Hazard α} {next : α → Except Hazard β}
    {result : β} (ended : (first >>= next) = .ok result) :
    ∃ between, first = .ok between ∧ next between = .ok result := by
  cases first with
  | error hazard => cases ended
  | ok between => exact ⟨between, rfl, ended⟩

@[simp] theorem pure_eq_ok {α : Type} (result : α) :
    (pure result : Except Hazard α) = .ok result := rfl

variable {T : Layering}

namespace Tail

/-- Where a list starts that goes on with `link` behind its last node. -/
def entry (tail : Tail T) (link : Option Nat) : Option Nat :=
  match tail with
  | [] => link
  | node :: _ => some node.addr

/-- The records of a list that goes on with `link` behind its last node. -/
def segment : Tail T → Option Nat → Multiset (Nat × Record T)
  | [], _ => 0
  | node :: rest, link =>
      (node.addr, ⟨node.value, entry rest link, node.owner⟩) ::ₘ segment rest link

def link (tail : Tail T) : Option Nat :=
  tail.entry none

def records (tail : Tail T) : Multiset (Nat × Record T) :=
  tail.segment none

@[simp] theorem link_nil : link ([] : Tail T) = none := rfl

@[simp] theorem link_cons (node : Node T) (rest : Tail T) :
    link (node :: rest) = some node.addr := rfl

@[simp] theorem records_nil : records ([] : Tail T) = 0 := rfl

theorem isNone_link (tail : Tail T) : tail.link.isNone = tail.isEmpty := by
  cases tail <;> rfl

theorem records_cons (node : Node T) (rest : Tail T) :
    records (node :: rest) =
      (node.addr, ⟨node.value, link rest, node.owner⟩) ::ₘ records rest := rfl

theorem entry_append (front back : Tail T) (link : Option Nat) :
    entry (front ++ back) link = entry front (entry back link) := by
  cases front <;> rfl

theorem segment_append (front back : Tail T) (link : Option Nat) :
    segment (front ++ back) link = segment front (entry back link) + segment back link := by
  induction front with
  | nil => exact (zero_add _).symm
  | cons node rest ih =>
    rw [List.cons_append, segment, segment, ih, entry_append, Multiset.cons_add]

theorem link_append (front back : Tail T) : link (front ++ back) = entry front (link back) :=
  entry_append front back none

theorem records_append (front back : Tail T) :
    records (front ++ back) = segment front (link back) + records back :=
  segment_append front back none

/-- A list falls into what is in front of a node, the node, and what is behind it. -/
theorem records_split (front : Tail T) (node : Node T) (rest : Tail T) :
    records (front ++ node :: rest) =
      segment front (some node.addr) +
        (node.addr, ⟨node.value, link rest, node.owner⟩) ::ₘ records rest :=
  records_append front (node :: rest)

theorem map_node_segment (tail : Tail T) (link : Option Nat) :
    (tail.segment link).map (fun entry => entry.2.node entry.1) = ↑tail := by
  induction tail with
  | nil => rfl
  | cons node rest ih => rw [segment, Multiset.map_cons, ih]; rfl

theorem map_fst_segment (tail : Tail T) (link : Option Nat) :
    (tail.segment link).map Prod.fst = ↑(tail.map Node.addr) := by
  induction tail with
  | nil => rfl
  | cons node rest ih => rw [segment, Multiset.map_cons, ih]; rfl

/-- Where no address repeats, a link leads to one place in a list. -/
theorem eq_of_suffix {inner outer : Tail T} (unique : (outer.map Node.addr).Nodup)
    (suffix : inner <:+ outer) (same : inner.link = outer.link) : inner = outer := by
  obtain ⟨front, rfl⟩ := suffix
  cases front with
  | nil => rfl
  | cons node front =>
    cases inner with
    | nil => cases same
    | cons other rest =>
      rw [List.cons_append, link_cons, link_cons, Option.some.injEq] at same
      rw [List.cons_append, List.map_cons, List.nodup_cons] at unique
      refine absurd ?_ unique.1
      rw [← same, List.map_append, List.map_cons]
      exact List.mem_append_right _ List.mem_cons_self

end Tail

theorem ValueStream.skip_ofTail (count : Nat) (tail : Tail T) :
    (ValueStream.ofTail tail).skip count =
      (tail[count]?.map Node.value, ValueStream.ofTail (tail.drop (count + 1))) := by
  simp only [ValueStream.skip_eq, ValueStream.ofTail, Tail.values, List.getElem?_map,
    List.map_drop]

namespace Memory

/-- The memory consists of these records. -/
structure Holds (memory : Memory T) (records : Multiset (Nat × Record T)) : Prop where
  distinct : (records.map Prod.fst).Nodup
  found : ∀ addr record, memory.get? addr = some record ↔ (addr, record) ∈ records

variable {memory : Memory T} {records rest : Multiset (Nat × Record T)} {addr : Nat}
  {record : Record T}

theorem holds_empty : (empty : Memory T).Holds 0 where
  distinct := Multiset.nodup_zero
  found addr record := by
    simp only [get?_empty, reduceCtorEq, Multiset.notMem_zero]

theorem Holds.get? (holds : memory.Holds ((addr, record) ::ₘ rest)) :
    memory.get? addr = some record :=
  (holds.found addr record).2 (Multiset.mem_cons_self _ _)

theorem Holds.read (holds : memory.Holds ((addr, record) ::ₘ rest)) :
    memory.read addr = .ok record := by
  simp only [Memory.read, holds.get?]

theorem Holds.get?_eq_none (holds : memory.Holds records) (away : addr ∉ records.map Prod.fst) :
    memory.get? addr = none := by
  cases found : memory.get? addr with
  | none => rfl
  | some record =>
    exact absurd (Multiset.mem_map_of_mem Prod.fst ((holds.found addr record).1 found)) away

/-- No second record stands at the address of the first. -/
theorem Holds.notMem (holds : memory.Holds ((addr, record) ::ₘ rest)) (other : Record T) :
    (addr, other) ∉ rest := by
  have distinct := holds.distinct
  rw [Multiset.map_cons, Multiset.nodup_cons] at distinct
  intro member
  exact distinct.1 (Multiset.mem_map.2 ⟨_, member, rfl⟩)

theorem Holds.write (holds : memory.Holds records) (free : memory.get? addr = none) :
    (memory.write addr record).Holds ((addr, record) ::ₘ records) where
  distinct := by
    rw [Multiset.map_cons, Multiset.nodup_cons]
    refine ⟨fun member => ?_, holds.distinct⟩
    obtain ⟨⟨other, held⟩, found, same⟩ := Multiset.mem_map.1 member
    obtain rfl : other = addr := same
    rw [(holds.found other held).2 found] at free
    cases free
  found other held := by
    rw [get?_write, Multiset.mem_cons, Prod.mk.injEq]
    split
    · next same =>
      subst same
      rw [Option.some.injEq]
      refine ⟨fun same => Or.inl ⟨rfl, same.symm⟩, ?_⟩
      rintro (⟨-, rfl⟩ | member)
      · rfl
      · rw [(holds.found addr held).2 member] at free
        cases free
    · next differs =>
      rw [holds.found]
      exact ⟨Or.inr, fun either => either.resolve_left fun same => differs same.1.symm⟩

theorem Holds.erase (holds : memory.Holds ((addr, record) ::ₘ rest)) :
    (memory.erase addr).Holds rest where
  distinct := (Multiset.nodup_cons.1 (Multiset.map_cons _ _ _ ▸ holds.distinct)).2
  found other held := by
    rw [get?_erase]
    split
    · next same =>
      subst same
      constructor
      · intro none
        cases none
      · intro member
        exact absurd member (holds.notMem held)
    · next differs =>
      rw [holds.found, Multiset.mem_cons, Prod.mk.injEq]
      exact ⟨fun either => either.resolve_left fun same => differs same.1.symm, Or.inr⟩

theorem write_eq_write_erase (addr : Nat) (record : Record T) (memory : Memory T) (other : Nat) :
    (memory.write addr record).get? other = ((memory.erase addr).write addr record).get? other := by
  simp only [get?_write, get?_erase]
  split <;> rfl

theorem Holds.congr {same : Memory T} (holds : memory.Holds records)
    (equal : ∀ addr, same.get? addr = memory.get? addr) : same.Holds records where
  distinct := holds.distinct
  found addr record := by rw [equal, holds.found]

theorem Holds.relink (holds : memory.Holds ((addr, record) ::ₘ rest)) (link : Option Nat) :
    ∃ after, memory.relink addr link = .ok (record.next, after) ∧
      after.Holds ((addr, { record with next := link }) ::ₘ rest) := by
  refine ⟨memory.write addr { record with next := link }, ?_, ?_⟩
  · simp only [Memory.relink, holds.read]
    rfl
  · have free : (memory.erase addr).get? addr = none := by
      simp only [get?_erase, ↓reduceIte]
    exact (holds.erase.write free).congr (write_eq_write_erase addr _ memory)

theorem Holds.cast (holds : memory.Holds records) (same : records = rest) : memory.Holds rest :=
  same ▸ holds

/-- Every memory consists of its records. -/
theorem exists_holds (memory : Memory T) : ∃ records, memory.Holds records := by
  refine ⟨↑memory.records.toList, ?_, fun addr record => ?_⟩
  · rw [Multiset.map_coe, Multiset.coe_nodup, Std.ExtTreeMap.map_fst_toList_eq_keys]
    exact Std.ExtTreeMap.nodup_keys
  · rw [Multiset.mem_coe, Std.ExtTreeMap.mem_toList_iff_getElem?_eq_some]
    rfl

/-- Records decide the memory that consists of them. -/
theorem Holds.unique {other : Memory T} (holds : memory.Holds records)
    (same : other.Holds records) : memory = other := by
  have equal : ∀ addr, memory.get? addr = other.get? addr := fun addr =>
    Option.ext fun record => (holds.found addr record).trans (same.found addr record).symm
  cases memory
  cases other
  exact congrArg Memory.mk (Std.ExtTreeMap.ext_getElem? fun {addr} => equal addr)

theorem Holds.get?_of_add {whole : Memory T} {more : Multiset (Nat × Record T)}
    (holds : memory.Holds records) (together : whole.Holds (more + records))
    (away : addr ∉ more.map Prod.fst) : whole.get? addr = memory.get? addr := by
  refine Option.ext fun record => ?_
  rw [together.found, holds.found, Multiset.mem_add]
  exact or_iff_right fun among => away (Multiset.mem_map_of_mem Prod.fst among)

section Reading

variable {tail : Tail T}

theorem gather_none (memory : Memory T) : memory.gather none = .ok [] := by
  rw [gather]

theorem gather_some (found : memory.get? addr = some record) :
    memory.gather (some addr) = do
      let rest ← (memory.erase addr).gather record.next
      return record.node addr :: rest := by
  rw [gather]
  split
  · next absent => rw [found] at absent; cases absent
  · next other same =>
    rw [found, Option.some.injEq] at same
    rw [same]

/-- Gathering behind the link of a list finds the list. -/
theorem Holds.gather (holds : memory.Holds (tail.records + rest)) :
    memory.gather tail.link = .ok tail := by
  induction tail generalizing memory with
  | nil => exact gather_none memory
  | cons node others ih =>
    rw [Tail.records_cons, Multiset.cons_add] at holds
    rw [Tail.link_cons, gather_some holds.get?, ih holds.erase]
    rfl

theorem Holds.follow (holds : memory.Holds (tail.records + rest)) (position : Nat) :
    memory.follow position tail.link = .ok (Tail.link (tail.drop position)) := by
  induction tail generalizing position rest with
  | nil => cases position <;> simp only [Memory.follow, Tail.link_nil, List.drop_nil]
  | cons node others ih =>
    cases position with
    | zero => rfl
    | succ position =>
      rw [Tail.records_cons, Multiset.cons_add] at holds
      rw [Tail.link_cons, Memory.follow, holds.read]
      exact ih (holds.cast (Multiset.add_cons _ _ _).symm) position

theorem Holds.next (holds : memory.Holds (tail.records + rest)) :
    memory.next tail.link = .ok (tail.head?.map Node.value, Tail.link tail.tail) := by
  cases tail with
  | nil => rfl
  | cons node others =>
    rw [Tail.records_cons, Multiset.cons_add] at holds
    rw [Tail.link_cons, Memory.next, holds.read]
    rfl

/-- What is held of a list is held of what is behind its first nodes. -/
theorem Holds.drop (holds : memory.Holds (tail.records + rest)) (count : Nat) :
    ∃ others, memory.Holds (Tail.records (tail.drop count) + others) := by
  refine ⟨Tail.segment (tail.take count) (Tail.link (tail.drop count)) + rest, holds.cast ?_⟩
  conv_lhs => rw [← List.take_append_drop count tail, Tail.records_append]
  abel

theorem Holds.skip (holds : memory.Holds (tail.records + rest)) (count : Nat) :
    memory.skip count tail.link =
      .ok (tail[count]?.map Node.value, Tail.link (tail.drop (count + 1))) := by
  induction count generalizing tail rest with
  | zero =>
    rw [Memory.skip, holds.next, ← List.head?_eq_getElem?, List.drop_one]
  | succ count ih =>
    rw [Memory.skip, holds.next]
    cases tail with
    | nil => rfl
    | cons node others =>
      obtain ⟨behind, held⟩ := holds.drop 1
      exact ih held

/-- Reading step by step along the links reads the values of the list. -/
theorem Holds.stream (holds : memory.Holds (tail.records + rest)) (steps : List StreamStep) :
    memory.stream tail.link steps = .ok ((ValueStream.ofTail tail).read steps) := by
  induction steps generalizing tail rest with
  | nil => rfl
  | cons step steps ih =>
    cases step with
    | next =>
      obtain ⟨behind, held⟩ := holds.drop 1
      have read : memory.next tail.link = _ := holds.skip 0
      simp only [Memory.stream, read, Nat.zero_add, ok_bind, ih held, pure_eq_ok,
        ValueStream.read, ValueStream.next, ValueStream.skip_ofTail]
    | skip count =>
      obtain ⟨behind, held⟩ := holds.drop (count + 1)
      simp only [Memory.stream, holds.skip, ok_bind, ih held, pure_eq_ok, ValueStream.read,
        ValueStream.skip_ofTail]
    | bounds => rw [Memory.stream, ih holds]; rfl
    | rest =>
      have ended : memory.Holds (Tail.records [] + (tail.records + rest)) :=
        holds.cast (zero_add _).symm
      have later : memory.stream none steps = _ := ih ended
      simp only [Memory.stream, holds.gather, later, ok_bind, pure_eq_ok, ValueStream.read]
      rfl
    | count =>
      simp only [Memory.stream, holds.gather, ok_bind, pure_eq_ok, ValueStream.read,
        ValueStream.count, ValueStream.ofTail, Tail.values, List.length_map]
    | last => rw [Memory.stream, holds.gather]; rfl
    | unrecognised => rw [Memory.stream, ih holds]; rfl

theorem Holds.addrs_nodup (holds : memory.Holds (tail.records + rest)) :
    (tail.map Node.addr).Nodup := by
  have distinct := holds.distinct
  rw [Multiset.map_add] at distinct
  have own := (Multiset.nodup_add.1 distinct).1
  rw [Tail.records, Tail.map_fst_segment] at own
  exact Multiset.coe_nodup.1 own

/-- Two cursors in one list stand at the same address if equally many nodes follow. -/
theorem Holds.isAt {saved cursor : Cursor T} (holds : memory.Holds (tail.records + rest))
    (before : saved.nodes <:+ tail) (here : cursor.nodes <:+ tail) :
    (saved.node.addr == cursor.node.addr) = saved.isAt cursor := by
  have unique := holds.addrs_nodup
  rw [Bool.eq_iff_iff, Cursor.isAt, beq_iff_eq, beq_iff_eq]
  have within : ∀ {one other : Cursor T}, one.nodes <:+ other.nodes → other.nodes <:+ tail →
      (one.node.addr = other.node.addr ↔ one.rest.length = other.rest.length) := by
    intro one other inner outer
    have apart : (other.nodes.map Node.addr).Nodup := unique.sublist (outer.sublist.map _)
    refine ⟨fun same => ?_, fun same => ?_⟩
    · have equal := Tail.eq_of_suffix apart inner (congrArg some same)
      exact congrArg (fun nodes => nodes.length - 1) equal
    · have equal : one.nodes = other.nodes := inner.eq_of_length (congrArg (· + 1) same)
      exact congrArg Node.addr (List.cons.inj equal).1
  rcases List.suffix_or_suffix_of_suffix before here with inner | inner
  · exact within inner here
  · rw [eq_comm, within inner before, eq_comm]

/-- Looking around along the links sees what a cursor sees. -/
theorem Holds.look {saved cursor : Cursor T} (holds : memory.Holds (tail.records + rest))
    (before : saved.nodes <:+ tail) (here : cursor.nodes <:+ tail) (steps : List CursorStep) :
    memory.look saved.node.addr cursor.node.addr steps = .ok (saved.look cursor steps) := by
  induction steps generalizing saved cursor with
  | nil => rfl
  | cons step steps ih =>
    obtain ⟨front, whole⟩ := here
    have place : memory.Holds (Tail.records cursor.nodes +
        (Tail.segment front (Tail.link cursor.nodes) + rest)) := by
      apply holds.cast
      rw [← whole, Tail.records_append]
      abel
    have record := place
    rw [Cursor.nodes, Tail.records_cons, Multiset.cons_add] at record
    have same := ih before ⟨front, whole⟩
    cases step with
    | value =>
      simp only [Memory.look, record.read, same, ok_bind, pure_eq_ok]
      rfl
    | terminal =>
      simp only [Memory.look, record.read, same, ok_bind, pure_eq_ok, Tail.isNone_link]
      rfl
    | next =>
      have behind := (record.cast (Multiset.add_cons _ _ _).symm).next
      simp only [Memory.look, record.read, behind, same, ok_bind, pure_eq_ok]
      rfl
    | values =>
      have all : memory.gather (some cursor.node.addr) = _ := place.gather
      simp only [Memory.look, all, same, ok_bind, pure_eq_ok]
      rfl
    | advance =>
      obtain ⟨node, behind⟩ := cursor
      simp only [Memory.look, record.read, ok_bind]
      cases behind with
      | nil =>
        simp only [Tail.link_nil, same, ok_bind, pure_eq_ok]
        rfl
      | cons next behind =>
        have moved : (⟨next, behind⟩ : Cursor T).nodes <:+ tail :=
          (List.suffix_cons node (next :: behind)).trans ⟨front, whole⟩
        have later : memory.look saved.node.addr next.addr steps = _ := ih before moved
        simp only [Tail.link_cons, later, ok_bind, pure_eq_ok]
        rfl
    | save =>
      simp only [Memory.look, ih ⟨front, whole⟩ ⟨front, whole⟩, ok_bind, pure_eq_ok]
      rfl
    | restore =>
      simp only [Memory.look, ih before before, ok_bind, pure_eq_ok]
      rfl
    | same =>
      simp only [Memory.look, same, holds.isAt before ⟨front, whole⟩, ok_bind, pure_eq_ok]
      rfl
    | render style =>
      cases style with
      | none => rfl
      | some style =>
        simp only [Memory.look, record.read, same, ok_bind, pure_eq_ok]
        rfl
    | unrecognised =>
      simp only [Memory.look, same, ok_bind, pure_eq_ok]
      rfl

end Reading

end Memory

end ChainLedger
