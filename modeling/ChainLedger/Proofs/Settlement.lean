import ChainLedger.Parent.Arena
import ChainLedger.Proofs.Run

set_option autoImplicit false

namespace ChainLedger

def Event.allocated? : Event → Option (Nat × Int64)
  | .nodeAllocated value addr => some (addr, value)
  | _ => none

def Event.released? : Event → Option (Nat × Int64)
  | .nodeReleased value addr => some (addr, value)
  | _ => none

def allocatedIn (events : List Event) : Multiset (Nat × Int64) :=
  ↑(events.filterMap Event.allocated?)

def releasedIn (events : List Event) : Multiset (Nat × Int64) :=
  ↑(events.filterMap Event.released?)

theorem allocatedIn_append (first second : List Event) :
    allocatedIn (first ++ second) = allocatedIn first + allocatedIn second := by
  rw [allocatedIn, List.filterMap_append, ← Multiset.coe_add]
  rfl

theorem releasedIn_append (first second : List Event) :
    releasedIn (first ++ second) = releasedIn first + releasedIn second := by
  rw [releasedIn, List.filterMap_append, ← Multiset.coe_add]
  rfl

theorem allocatedIn_reverse (events : List Event) :
    allocatedIn events.reverse = allocatedIn events := by
  rw [allocatedIn, List.filterMap_reverse, Multiset.coe_reverse, allocatedIn]

theorem releasedIn_reverse (events : List Event) :
    releasedIn events.reverse = releasedIn events := by
  rw [releasedIn, List.filterMap_reverse, Multiset.coe_reverse, releasedIn]

variable {T : Layering} {π : Type}

def Node.entry (node : Node T) : Nat × Int64 :=
  (node.addr, node.value)

/-- From one state to a later one, what was written down accounts for the nodes held. -/
def Settles (store : Store T π) (held : Multiset (Node T)) (after : Store T π)
    (left : Multiset (Node T)) : Prop :=
  ∃ written : List Event, after.trace = written ++ store.trace ∧
    held.map Node.entry + allocatedIn written = left.map Node.entry + releasedIn written ∧
    ∀ node ∈ held, node ∈ left ∨ .nodeReleased node.value node.addr ∈ written

section Steps

variable {store between after : Store T π} {held left rest : Multiset (Node T)}

theorem Settles.refl : Settles store held store held :=
  ⟨[], rfl, rfl, fun _ member => Or.inl member⟩

theorem Settles.trans (first : Settles store held between left)
    (second : Settles between left after rest) : Settles store held after rest := by
  obtain ⟨early, begun, balanced, kept⟩ := first
  obtain ⟨late, ended, settled, stayed⟩ := second
  refine ⟨late ++ early, ?_, ?_, fun node member => ?_⟩
  · rw [ended, begun, List.append_assoc]
  · rw [allocatedIn_append, releasedIn_append, add_comm (allocatedIn late), ← add_assoc, balanced,
      add_right_comm, settled, add_assoc]
  · rcases kept node member with there | released
    · exact (stayed node there).imp_right (List.mem_append_left _)
    · exact Or.inr (List.mem_append_right _ released)

/-- Events that concern no node leave the nodes alone. -/
theorem Settles.of_quiet (written : List Event) (trace : after.trace = written ++ store.trace)
    (quiet : ∀ event ∈ written, event.allocated? = none ∧ event.released? = none) :
    Settles store held after held := by
  refine ⟨written, trace, ?_, fun _ member => Or.inl member⟩
  have allocated : written.filterMap Event.allocated? = [] :=
    List.filterMap_eq_nil_iff.2 fun event member => (quiet event member).1
  have released : written.filterMap Event.released? = [] :=
    List.filterMap_eq_nil_iff.2 fun event member => (quiet event member).2
  rw [allocatedIn, releasedIn, allocated, released]

variable [Parent π]

/-- A request writes down at most that it was refused. -/
theorem Store.trace_allocate {handle : Handle T} {layout : Layout} {answer : Except Failure Nat}
    (asked : store.allocate handle layout = (answer, after)) :
    ∃ written, after.trace = written ++ store.trace ∧
      ∀ event ∈ written, event.allocated? = none ∧ event.released? = none := by
  rcases answer with (_ | fault | wanted) | addr
  · rcases (allocateAlong_refused asked).2 with ⟨_, trace, _⟩ | ⟨_, trace⟩
    · exact ⟨[.requestRefused layout], trace, List.forall_mem_singleton.2 ⟨rfl, rfl⟩⟩
    · exact ⟨[], trace, List.forall_mem_nil _⟩
  · obtain ⟨_, _, _, _, _, _, trace, _⟩ := allocateAlong_fault handle.path_nodup asked
    exact ⟨[], trace, List.forall_mem_nil _⟩
  · exact absurd (congrArg Prod.fst asked) (allocateAlong_ne_aborted _ _ _ _)
  · exact ⟨[], (allocateAlong_ok handle.path_nodup asked).2.1, List.forall_mem_nil _⟩

theorem Settles.move {direct : Prop} {fault : Option Fault}
    (move : Move direct store held fault after left) : Settles store held after left := by
  cases move with
  | @allocate demand owner value _ _ node _ granted =>
    obtain ⟨rfl, _⟩ := Node.of_allocate granted
    obtain ⟨between, asked, rfl⟩ := Node.granted_of_allocate granted
    have trace := (Store.allocateAlong_ok owner.path_nodup asked).2.1
    refine ⟨[.nodeAllocated node.value node.addr], congrArg _ trace, ?_, fun other member =>
      Or.inl (Multiset.mem_cons_of_mem member)⟩
    have one : allocatedIn [.nodeAllocated node.value node.addr] = {node.entry} := rfl
    have none : releasedIn [.nodeAllocated node.value node.addr] = 0 := rfl
    rw [one, none, Multiset.map_cons, add_zero, add_comm, Multiset.singleton_add]
  | fail failed =>
    obtain ⟨cause, asked, _⟩ := Node.asked_of_allocate failed
    obtain ⟨written, trace, quiet⟩ := Store.trace_allocate asked
    exact .of_quiet _ trace quiet
  | @free node _ _ _ _ freed =>
    have trace := node.trace_free store
    rw [freed] at trace
    refine ⟨[.nodeReleased node.value node.addr], trace, ?_, fun other member => ?_⟩
    · have none : allocatedIn [.nodeReleased node.value node.addr] = 0 := rfl
      have one : releasedIn [.nodeReleased node.value node.addr] = {node.entry} := rfl
      rw [none, one, Multiset.map_cons, add_zero, add_comm, Multiset.singleton_add]
    · rcases Multiset.mem_cons.1 member with rfl | member
      · exact Or.inr List.mem_cons_self
      · exact Or.inl member
  | @abandon built total _ _ =>
    exact .of_quiet [.buildAbandoned built total] rfl
      (List.forall_mem_singleton.2 ⟨rfl, rfl⟩)
  | setBudget => exact .of_quiet [] rfl (List.forall_mem_nil _)
  | request allowed asked =>
    obtain ⟨written, trace, quiet⟩ := Store.trace_allocate asked
    exact .of_quiet _ trace quiet
  | @giveBack _ _ i addr layout _ _ allowed returned =>
    have trace := Store.trace_deallocateAlong addr layout (Handle.path (some i)) store
    refine .of_quiet [] ?_ (List.forall_mem_nil _)
    rw [← show (store.deallocate (some i) addr layout).2 = after from congrArg Prod.snd returned]
    exact trace
  | configure => exact .of_quiet [] rfl (List.forall_mem_nil _)

theorem Settles.traffic {direct : Prop} {faults : List Fault}
    (traffic : Traffic direct store held faults after left) : Settles store held after left := by
  induction traffic with
  | still => exact .refl
  | go first _ ih => exact (Settles.move first).trans ih

end Steps

/-- Everything behind these links, one list after the other. -/
def Memory.gatherAll (memory : Memory T) : List (Option Nat) → Except Hazard (Tail T)
  | [] => .ok []
  | link :: links => do
      let nodes ← memory.gather link
      return nodes ++ (← memory.gatherAll links)

/-- The nodes of all holders, met along the links. -/
def Machine.census (machine : Machine T π) : Except Hazard (Tail T) :=
  machine.memory.gatherAll (machine.holders.entries.map fun entry => entry.2.first)

theorem Memory.gatherAll_eq {memory : Memory T} {rest : Multiset (Nat × Record T)}
    (lists : List (Tail T)) (holds : memory.Holds ((lists.map Tail.records).sum + rest)) :
    memory.gatherAll (lists.map Tail.link) = .ok lists.flatten := by
  induction lists generalizing rest with
  | nil => rfl
  | cons tail lists ih =>
    rw [List.map_cons, List.sum_cons, add_assoc] at holds
    have later := ih (holds.cast (add_left_comm _ _ _))
    simp only [List.map_cons, gatherAll, holds.gather, later, ok_bind, pure_eq_ok,
      List.flatten_cons]

theorem coe_flatten (lists : List (Tail T)) :
    (↑lists.flatten : Multiset (Node T)) = (lists.map Multiset.ofList).sum := by
  induction lists with
  | nil => rfl
  | cons tail lists ih =>
    rw [List.flatten_cons, ← Multiset.coe_add, ih, List.map_cons, List.sum_cons]

/-- The nodes met from the holders are those that the session owns. -/
theorem Represents.census_eq {machine : Machine T π} {session : Session T π}
    (represents : Represents 0 machine session) :
    ∃ nodes, machine.census = .ok nodes ∧ ↑nodes = session.owned := by
  obtain ⟨⟨store, memory⟩, holders⟩ := machine
  obtain ⟨rfl, rfl, held⟩ := represents
  have listed : memory.Holds (((session.registers.entries.map fun entry => entry.2.nodes).map
      Tail.records).sum + 0) := by
    apply held.cast
    rw [List.map_map, zero_add, add_zero]
    rfl
  refine ⟨(session.registers.entries.map fun entry => entry.2.nodes).flatten, ?_, ?_⟩
  · have gathered := Memory.gatherAll_eq _ listed
    rw [List.map_map] at gathered
    simp only [Machine.census, Directory.map, List.map_map]
    refine Eq.trans (congrArg (Memory.gatherAll memory) ?_) gathered
    exact List.map_congr_left fun entry _ => entry.2.first_holder
  · rw [coe_flatten, List.map_map]
    rfl

section Runs

variable [Parent π]

/-- Whatever the parent does and whatever is asked of the ledgers behind the backs of the nodes:
as long as no record is written over another and the run goes on, the nodes written down as
allocated are the nodes in the holders together with those written down as released. -/
theorem Machine.settled_performAll (budgets : Fin T.size → Option Nat) (parent : π)
    (ops : List (Op T π))
    (intact : ∀ addr, performAll ops (opened (.opened budgets parent)) ≠ .error (.overwrite addr)) :
    ∃ replies machine, performAll ops (opened (.opened budgets parent)) = .ok (replies, machine) ∧
      (Survived replies → ∃ nodes, machine.census = .ok nodes ∧
        allocatedIn machine.store.events =
          releasedIn machine.store.events + ↑(nodes.map Node.entry)) := by
  have start := Represents.opened (T := T) (Store.opened budgets parent)
  have ran := start.performAll_outcome (Or.inl trivial : Careful True _ _) ops
    fun _ _ => Or.inl trivial
  obtain ⟨⟨replies, machine⟩, ended, rfl, store, represents⟩ := ran.exists_of_intact intact
  refine ⟨_, machine, ended, fun survived => ?_⟩
  obtain ⟨nodes, counted, owned⟩ := (represents survived).census_eq
  have allowed : ∀ op ∈ ops, op.IsDirect → True := fun _ _ _ => trivial
  obtain ⟨faults, traffic, _⟩ := Session.accounts_performAll ops
    (.opened (.opened budgets parent)) allowed survived
  obtain ⟨written, trace, balanced, _⟩ := Settles.traffic traffic
  refine ⟨nodes, counted, ?_⟩
  have events : machine.store.events = written.reverse := by
    rw [Store.events, show machine.store = _ from store, trace]
    exact congrArg List.reverse (List.append_nil _)
  have none : (Session.opened (Store.opened budgets parent)).owned.map Node.entry = 0 := rfl
  rw [none, zero_add, ← owned, Multiset.map_coe] at balanced
  rw [events, allocatedIn_reverse, releasedIn_reverse, balanced, add_comm]

/-- Nodes of two ledgers in one list, the block of one of them returned behind its back; a build
that comes to its end halfway, the arena moved, and a list dropped that cannot be dropped without a
fault. -/
theorem Machine.settled_performAll_fork :
    let ops : List (Op .fork Arena) := [.chain "front" .attempt (some (1 : Fin 3)) [1, 2, 3],
      .node "back" .attempt (some (2 : Fin 3)) 4, .link "back" 0 (some "front") none,
      .deallocate (1 : Fin 3) 4120 ⟨24, 8⟩, .setBudget (2 : Fin 3) (some 1),
      .chain "late" .attempt (some (2 : Fin 3)) [5, 6], .configure (8192 : Nat),
      .node "last" .insist (some (0 : Fin 3)) 7, .drop "back"]
    let start : Machine .fork Arena := opened (.opened (fun _ => none) (.ofCapacity 8192))
    ∃ replies machine nodes, performAll ops start = .ok (replies, machine) ∧
      machine.census = .ok nodes ∧ allocatedIn machine.store.events =
        releasedIn machine.store.events + ↑(nodes.map Node.entry) := by
  intro ops start
  have lasting : start.answersAll (fun reply => reply.isAbort = false) ops = true := by
    decide +kernel
  obtain ⟨replies, machine, ran, survived⟩ := exists_of_answersAll lasting
  have intact : ∀ addr, performAll ops start ≠ .error (.overwrite addr) := by
    rw [ran]
    intro addr same
    cases same
  obtain ⟨_, _, same, settled⟩ := settled_performAll (fun _ => none) (Arena.ofCapacity 8192) ops
    intact
  obtain ⟨rfl, rfl⟩ := Prod.mk.inj (Except.ok.inj (ran.symm.trans same))
  obtain ⟨nodes, counted, balanced⟩ := settled survived
  exact ⟨replies, machine, nodes, ran, counted, balanced⟩

end Runs

end ChainLedger
