import ChainLedger.Proofs.Settlement

set_option autoImplicit false

namespace ChainLedger

namespace Ledger

variable {ledger : Ledger} {addr : Nat} {layout : Layout}

theorem counts_enter (positive : layout.size ≠ 0) (free : ledger.isLive addr = false) :
    (ledger.enter addr layout).2.allocations = ledger.allocations + 1 ∧
      (ledger.enter addr layout).2.releases = ledger.releases ∧
      (ledger.enter addr layout).2.liveCount = ledger.liveCount + 1 := by
  refine ⟨ledger.allocations_enter addr layout, ledger.releases_enter addr layout, ?_⟩
  rw [liveCount_enter, if_neg (by simp only [positive, free, Bool.false_eq_true, or_self,
    not_false_eq_true])]

theorem counts_strike (positive : layout.size ≠ 0) (recorded : ledger.live[addr]? = some layout) :
    (ledger.strike addr layout).2.allocations = ledger.allocations ∧
      (ledger.strike addr layout).2.releases = ledger.releases + 1 ∧
      (ledger.strike addr layout).2.liveCount + 1 = ledger.liveCount := by
  refine ⟨ledger.allocations_strike addr layout, ?_, ?_⟩
  · rw [releases_strike, if_pos (strike_accepted_iff.2 (Or.inr recorded))]
  · have counted := ledger.liveCount_strike addr layout
    rwa [if_pos ⟨positive, isLive_iff.2 ⟨layout, recorded⟩⟩] at counted

end Ledger

variable {T : Layering} {π : Type}

section Books

variable [Parent π]

/-- Every record that a ledger knows of has the same layout. -/
theorem recordLayout_of_mem_path {owner : Handle T} {i : Fin T.size} (on : i ∈ owner.path) :
    recordLayout π owner = ⟨24, 8⟩ := by
  cases owner with
  | none => cases on
  | some j => rfl

/-- The books of all ledgers are those of the nodes held, which stand at addresses of their own. -/
structure Sound (store : Store T π) (held : Multiset (Node T)) : Prop where
  fresh : Fresh store held
  distinct : (held.map Node.addr).Nodup
  live : ∀ i (addr : Nat) (layout : Layout), (store.ledger i).live[addr]? = some layout ↔
    layout = ⟨24, 8⟩ ∧ ∃ node ∈ held, node.addr = addr ∧ i ∈ node.owner.path
  counted : ∀ i, (store.ledger i).allocations =
    (store.ledger i).releases + (store.ledger i).liveCount

namespace Sound

variable {store after : Store T π} {held left : Multiset (Node T)}

theorem opened {parent : π} (fresh : Parent.NeverReuses parent)
    (budgets : Fin T.size → Option Nat) : Sound (.opened budgets parent) 0 where
  fresh := ⟨fresh, fun node member => absurd member (Multiset.notMem_zero node)⟩
  distinct := Multiset.nodup_zero
  live i addr layout := by
    simp only [Store.ledger_opened, Ledger.opened, Std.ExtTreeMap.getElem?_empty, reduceCtorEq,
      Multiset.notMem_zero, false_and, exists_false, and_false]
  counted i := by
    simp only [Store.ledger_opened, Ledger.opened, Ledger.liveCount, Std.ExtTreeMap.size_empty]

theorem isLive_eq_false (sound : Sound store held) {addr : Nat}
    (apart : ∀ node ∈ held, node.addr ≠ addr) (i : Fin T.size) :
    (store.ledger i).isLive addr = false := by
  rw [← Bool.not_eq_true]
  intro live
  obtain ⟨layout, recorded⟩ := Ledger.isLive_iff.1 live
  obtain ⟨_, node, member, same, _⟩ := (sound.live i addr layout).1 recorded
  exact apart node member same

theorem of_ledger_eq (sound : Sound store held) (fresh : Fresh after held)
    (ledgers : ∀ i, (after.ledger i).live = (store.ledger i).live ∧
      (after.ledger i).allocations = (store.ledger i).allocations ∧
      (after.ledger i).releases = (store.ledger i).releases) : Sound after held where
  fresh := fresh
  distinct := sound.distinct
  live i addr layout := by rw [(ledgers i).1, sound.live]
  counted i := by
    rw [(ledgers i).2.1, (ledgers i).2.2, Ledger.liveCount, (ledgers i).1]
    exact sound.counted i

theorem allocate (sound : Sound store held) {demand : Demand} {owner : Handle T} {value : Int64}
    {node : Node T} (granted : Node.allocate demand owner value store = (.ok node, after)) :
    Sound after (node ::ₘ held) := by
  have fresh := sound.fresh.move (.allocate granted)
  have apart := sound.fresh.apart granted
  obtain ⟨-, rfl⟩ := Node.of_allocate granted
  obtain ⟨between, asked, rfl⟩ := Node.granted_of_allocate granted
  obtain ⟨-, -, -, ledgers⟩ := Store.allocateAlong_ok node.owner.path_nodup asked
  have positive := (recordLayout_proper (π := π) node.owner).2
  refine ⟨fresh, ?_, fun i addr layout => ?_, fun i => ?_⟩
  · rw [Multiset.map_cons, Multiset.nodup_cons]
    refine ⟨fun member => ?_, sound.distinct⟩
    obtain ⟨other, there, same⟩ := Multiset.mem_map.1 member
    exact apart other there same
  · rw [Store.ledger_emit, ledgers]
    by_cases on : i ∈ node.owner.path
    · rw [if_pos on, Ledger.live_enter, recordLayout_of_mem_path on]
      by_cases same : node.addr = addr
      · rw [if_pos ⟨same, by decide⟩]
        constructor
        · rintro ⟨⟩
          exact ⟨rfl, node, Multiset.mem_cons_self _ _, same, on⟩
        · rintro ⟨rfl, -⟩
          rfl
      · simp only [same, false_and, ↓reduceIte, sound.live, Multiset.mem_cons, exists_eq_or_imp,
          false_or]
    · simp only [on, ↓reduceIte, sound.live, Multiset.mem_cons, exists_eq_or_imp, and_false,
        false_or]
  · rw [Store.ledger_emit, ledgers]
    have before := sound.counted i
    split
    · obtain ⟨grown, same, live⟩ := Ledger.counts_enter positive (sound.isLive_eq_false apart i)
      omega
    · exact before

/-- No request for a record ends in a fault. -/
theorem fail (sound : Sound store held) {demand : Demand} {owner : Handle T} {value : Int64}
    {failure : Failure}
    (failed : Node.allocate demand owner value store = (.error failure, after)) :
    Sound after held ∧ failure.fault? = none := by
  have fresh := sound.fresh.move (.fail failed)
  obtain ⟨cause, asked, named⟩ := Node.asked_of_allocate failed
  have proper := recordLayout_proper (π := π) owner
  rcases cause with _ | fault | layout
  · refine ⟨sound.of_ledger_eq fresh fun i => ?_, ?_⟩
    · rw [(Store.allocateAlong_refused asked).1 i]
      exact ⟨rfl, rfl, rfl⟩
    · cases failure with
      | fault fault => cases named fault rfl
      | _ => rfl
  · -- The parent would have granted an address that is live, and live addresses are spent.
    obtain ⟨addr, _, j, _, _, reached, _, here, _⟩ :=
      Store.allocateAlong_fault owner.path_nodup asked
    obtain ⟨_, _, live⟩ := Ledger.eq_of_enter_fault here
    have unused : ∀ node ∈ held, node.addr ≠ addr := fun node member same =>
      (sound.fresh.spent node member).ne_of_granted proper.1 proper.2 reached same.symm
    rw [sound.isLive_eq_false unused j] at live
    cases live
  · exact absurd (congrArg Prod.fst asked) (Store.allocateAlong_ne_aborted _ _ _ _)

section Return

variable {node : Node T}

/-- A node held is recorded in every ledger on its path. -/
theorem recorded (sound : Sound store (node ::ₘ held)) :
    ∀ i ∈ node.owner.path,
      (store.ledger i).live[node.addr]? = some (recordLayout π node.owner) := by
  intro i on
  rw [recordLayout_of_mem_path on, sound.live]
  exact ⟨rfl, node, Multiset.mem_cons_self _ _, rfl, on⟩

/-- No return of a record ends in a fault, and it is struck from every ledger on its path. -/
theorem ledger_free (sound : Sound store (node ::ₘ held)) :
    (node.free store).1 = none ∧
      ∀ i, (node.free store).2.ledger i = if i ∈ node.owner.path then
        ((store.ledger i).strike node.addr (recordLayout π node.owner)).2 else store.ledger i := by
  have noted : ∀ i ∈ node.owner.path, (((store.emit (.nodeReleased node.value node.addr)).ledger
      i).strike node.addr (recordLayout π node.owner)).1 = none := by
    intro i on
    exact Ledger.strike_accepted_iff.2 (Or.inr (sound.recorded i on))
  obtain ⟨accepted, -, ledgers⟩ := Store.deallocateAlong_accepted node.owner.path_nodup noted
  exact ⟨accepted, ledgers⟩

theorem free (sound : Sound store (node ::ₘ held)) : Sound (node.free store).2 held := by
  have fresh := sound.fresh.move (.free (Prod.mk.eta (p := node.free store)).symm)
  have positive := (recordLayout_proper (π := π) node.owner).2
  have distinct := sound.distinct
  rw [Multiset.map_cons, Multiset.nodup_cons] at distinct
  have apart : ∀ other ∈ held, other.addr ≠ node.addr := by
    intro other member same
    exact distinct.1 (Multiset.mem_map.2 ⟨other, member, same⟩)
  refine ⟨fresh, distinct.2, fun i addr layout => ?_, fun i => ?_⟩
  · rw [sound.ledger_free.2]
    by_cases on : i ∈ node.owner.path
    · rw [if_pos on, Ledger.live_strike]
      by_cases same : node.addr = addr
      · rw [if_pos ⟨same, positive⟩]
        constructor
        · intro found
          cases found
        · rintro ⟨_, other, member, here, _⟩
          exact absurd (here.trans same.symm) (apart other member)
      · simp only [same, false_and, ↓reduceIte, sound.live, Multiset.mem_cons, exists_eq_or_imp,
          false_or]
    · simp only [on, ↓reduceIte, sound.live, Multiset.mem_cons, exists_eq_or_imp, and_false,
        false_or]
  · rw [sound.ledger_free.2]
    have before := sound.counted i
    split
    · next on =>
      obtain ⟨same, grown, live⟩ := Ledger.counts_strike positive (sound.recorded i on)
      omega
    · exact before

end Return

theorem move {fault : Option Fault} (sound : Sound store held)
    (move : Move False store held fault after left) : Sound after left ∧ fault = none := by
  have fresh := sound.fresh.move move
  cases move with
  | allocate granted => exact ⟨sound.allocate granted, rfl⟩
  | fail failed => exact sound.fail failed
  | free freed =>
    have kept := sound.free
    have accepted := sound.ledger_free.1
    rw [freed] at kept accepted
    exact ⟨kept, accepted⟩
  | abandon => exact ⟨sound.of_ledger_eq fresh fun i => ⟨rfl, rfl, rfl⟩, rfl⟩
  | setBudget =>
    refine ⟨sound.of_ledger_eq fresh fun i => ?_, rfl⟩
    rw [Store.setBudget, Store.ledger_withLedger]
    split
    · next same => subst same; exact ⟨rfl, rfl, rfl⟩
    · exact ⟨rfl, rfl, rfl⟩
  | request allowed => exact allowed.elim
  | giveBack allowed => exact allowed.elim
  | configure allowed => exact allowed.elim

theorem traffic {faults : List Fault} (sound : Sound store held)
    (traffic : Traffic False store held faults after left) : Sound after left ∧ faults = [] := by
  induction traffic with
  | still => exact ⟨sound, rfl⟩
  | go first _ ih =>
    obtain ⟨between, rfl⟩ := sound.move first
    exact ih between

theorem clearEvents (sound : Sound store held) : Sound store.clearEvents held :=
  sound.of_ledger_eq ⟨sound.fresh.parent, sound.fresh.spent⟩ fun _ => ⟨rfl, rfl, rfl⟩

/-- Whatever is accounted for on sound books meets no fault. -/
theorem accounts {blame : Option Fault} (sound : Sound store held)
    (accounts : Accounts False store held blame after left) : Sound after left ∧ blame = none := by
  obtain ⟨faults, traffic, blamed⟩ := accounts
  obtain ⟨later, rfl⟩ := sound.traffic traffic
  exact ⟨later, Option.eq_none_iff_forall_ne_some.2 fun fault same =>
    List.not_mem_nil (blamed fault same)⟩

end Sound

end Books

section Paths

/-- A path of links starts here and comes to an end. -/
def Memory.Ends (memory : Memory T) (link : Option Nat) : Prop :=
  ∃ steps, memory.follow steps link = .ok none

variable {memory : Memory T} {rest : Multiset (Nat × Record T)} {tail : Tail T}

theorem Memory.Holds.ends (holds : memory.Holds (tail.records + rest)) : memory.Ends tail.link := by
  refine ⟨tail.length, ?_⟩
  rw [holds.follow, List.drop_length, Tail.link_nil]

/-- Behind a record of a list stands what is left of the list. -/
theorem Tail.suffix_of_mem_records {addr : Nat} {record : Record T}
    (member : (addr, record) ∈ tail.records) :
    ∃ position, record.next = link (tail.drop position) := by
  induction tail with
  | nil => exact absurd member (Multiset.notMem_zero _)
  | cons node others ih =>
    rw [records_cons, Multiset.mem_cons] at member
    rcases member with same | member
    · obtain ⟨-, rfl⟩ := Prod.mk.inj same
      exact ⟨1, rfl⟩
    · obtain ⟨position, behind⟩ := ih member
      exact ⟨position + 1, behind⟩

theorem Memory.Holds.ends_next {addr : Nat} {record : Record T}
    (holds : memory.Holds (tail.records + rest)) (member : (addr, record) ∈ tail.records) :
    memory.Ends record.next := by
  obtain ⟨position, behind⟩ := Tail.suffix_of_mem_records member
  obtain ⟨others, held⟩ := holds.drop position
  rw [behind]
  exact held.ends

/-- All paths that start in a holder or in a record come to an end. -/
theorem Represents.ends {machine : Machine T π} {session : Session T π}
    (represents : Represents 0 machine session) :
    (∀ name, machine.memory.Ends (machine.first name)) ∧
      ∀ (addr : Nat) record, machine.memory.get? addr = some record →
        machine.memory.Ends record.next := by
  refine ⟨fun name => ?_, fun addr record found => ?_⟩
  · have held := represents.holds name
    rw [represents.first]
    exact held.ends
  · have held := represents.memory
    rw [zero_add] at held
    obtain ⟨name, member⟩ := Registers.mem_records ((held.found addr record).1 found)
    exact (represents.holds name).ends_next member

end Paths

/-- The discipline of ownership: all links lead to an end, the nodes held stand at addresses of
their own, and the books of every ledger are those of the nodes that come from it or from a ledger
layered on it. -/
structure Machine.Disciplined (machine : Machine T π) : Prop where
  held_ends : ∀ name, machine.memory.Ends (machine.first name)
  record_ends : ∀ (addr : Nat) record, machine.memory.get? addr = some record →
    machine.memory.Ends record.next
  accounted : ∃ nodes, machine.census = .ok nodes ∧ (nodes.map Node.addr).Nodup ∧
    ∀ i (addr : Nat) (layout : Layout), (machine.store.ledger i).live[addr]? = some layout ↔
      layout = ⟨24, 8⟩ ∧ ∃ node ∈ nodes, node.addr = addr ∧ i ∈ node.owner.path
  counted : ∀ i, (machine.store.ledger i).allocations =
    (machine.store.ledger i).releases + (machine.store.ledger i).liveCount

section Runs

variable [Parent π]

theorem Represents.disciplined {machine : Machine T π} {session : Session T π}
    (represents : Represents 0 machine session) (sound : Sound session.store session.owned) :
    machine.Disciplined := by
  obtain ⟨nodes, counted, owned⟩ := represents.census_eq
  obtain ⟨held, linked⟩ := represents.ends
  rw [← represents.store, ← owned] at sound
  refine ⟨held, linked, ⟨nodes, counted, ?_, fun i addr layout => sound.live i addr layout⟩,
    sound.counted⟩
  rw [← Multiset.coe_nodup, ← Multiset.map_coe]
  exact sound.distinct

/-- Over a parent that grants no address twice, list operations in any order, on nodes of any of the
ledgers, end in no fault and keep the discipline. -/
theorem Machine.disciplined_performAll (budgets : Fin T.size → Option Nat) {parent : π}
    (fresh : Parent.NeverReuses parent) (ops : List (Op T π)) (listed : ∀ op ∈ ops, ¬ op.IsDirect) :
    ∃ replies machine, performAll ops (opened (.opened budgets parent)) = .ok (replies, machine) ∧
      (Survived replies → (∀ reply ∈ replies, reply.fault? = none) ∧ machine.Disciplined) := by
  have start := Represents.opened (T := T) (Store.opened budgets parent)
  have begun : Sound (Session.opened (Store.opened budgets parent)).store
      (Session.opened (Store.opened budgets parent)).owned := Sound.opened fresh budgets
  have ran := start.performAll_outcome (Or.inr begun.fresh : Careful False _ _) ops
    fun op member => Or.inr (listed op member)
  obtain ⟨⟨replies, machine⟩, ended, rfl, store, represents⟩ := ran.exists_ok
  refine ⟨_, machine, ended, fun survived => ?_⟩
  obtain ⟨faults, traffic, blamed⟩ := Session.accounts_performAll ops _ listed survived
  obtain ⟨sound, rfl⟩ := begun.traffic traffic
  refine ⟨fun reply member => ?_, (represents survived).disciplined sound⟩
  rw [Option.eq_none_iff_forall_not_mem]
  intro fault same
  exact List.not_mem_nil (blamed reply member fault same)

/-- Nodes of three ledgers in one list, two of them layered on the third; a build that is refused by
a budget, one that the arena has no room for, and nodes freed out of order. -/
theorem Machine.disciplined_performAll_fork :
    let ops : List (Op .fork Arena) := [.chain "front" .attempt (some (1 : Fin 3)) [1, 2, 3],
      .chain "back" .attempt (some (2 : Fin 3)) [4, 5], .pushFront "front" .insist 6,
      .link "back" 0 (some "front") (some "cut"), .node "root" .attempt (some (0 : Fin 3)) 7,
      .link "root" 0 (some "back") none, .setBudget (0 : Fin 3) (some 1),
      .chain "late" .attempt (some (2 : Fin 3)) [8, 9], .setBudget (0 : Fin 3) none,
      .chain "wide" .attempt none [10, 11, 12], .release "root" (some "rest"),
      .walk "rest" [.advance, .release], .drop "cut"]
    let start : Machine .fork Arena := opened (.opened (fun _ => none) (.ofCapacity 200))
    ∃ replies machine, performAll ops start = .ok (replies, machine) ∧
      (∀ reply ∈ replies, reply.fault? = none) ∧ machine.Disciplined := by
  intro ops start
  have lasting : start.answersAll (fun reply => reply.isAbort = false) ops = true := by
    decide +kernel
  obtain ⟨replies, machine, ran, survived⟩ := exists_of_answersAll lasting
  obtain ⟨_, _, same, disciplined⟩ := disciplined_performAll (fun _ => none)
    (Arena.neverReuses (.ofCapacity 200)) ops (by simp [ops, Op.IsDirect])
  obtain ⟨rfl, rfl⟩ := Prod.mk.inj (Except.ok.inj (ran.symm.trans same))
  exact ⟨replies, machine, ran, disciplined survived⟩

end Runs

end ChainLedger
