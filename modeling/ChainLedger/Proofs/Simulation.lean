import ChainLedger.Machine.Op
import ChainLedger.Proofs.Depot
import ChainLedger.Proofs.Ownership

/-
A machine does on records what a session does on lists. `Represents` ties the two together: the
same store, each holder with the link to the list of its register, and a memory that consists of
the records of all registers and of what is away from them at the moment. Every operation answers
the same on both sides and keeps them tied (`Represents.perform_outcome`).
-/

set_option autoImplicit false

namespace ChainLedger

variable {T : Layering} {π : Type}

namespace Register

def holder : Register T → Holder T
  | loose tail => .loose (Tail.link tail)
  | chain held => .chain (Tail.link held.nodes) held.owner

@[simp] theorem first_holder (register : Register T) :
    register.holder.first = Tail.link register.nodes := by
  cases register <;> rfl

@[simp] theorem withFirst_holder (nodes : Tail T) (register : Register T) :
    register.holder.withFirst nodes.link = (register.withNodes nodes).holder := by
  cases register <;> rfl

@[simp] theorem kind_holder (register : Register T) : register.holder.kind = register.kind := by
  cases register <;> rfl

end Register

/-- The records of all registers. -/
def Registers.records (registers : Registers T) : Multiset (Nat × Record T) :=
  registers.total fun register => Tail.records register.nodes

theorem Registers.records_eq (name : String) (registers : Registers T) :
    registers.records = Tail.records (registers.nodes name) + records (registers.erase name) := by
  rw [records, records, Directory.total_erase _ name, Directory.amountAt, nodes]
  cases registers.get? name <;> rfl

theorem Registers.mem_records {item : Nat × Record T} {registers : Registers T}
    (member : item ∈ registers.records) : ∃ name, item ∈ Tail.records (registers.nodes name) := by
  obtain ⟨name, found⟩ := (Directory.mem_total _ _).1 member
  refine ⟨name, ?_⟩
  rw [Directory.amountAt] at found
  rw [nodes]
  cases held : registers.get? name with
  | none =>
    rw [held] at found
    exact found
  | some register =>
    rw [held] at found
    exact found

theorem Registers.records_put (name : String) (register : Register T) (registers : Registers T) :
    records (registers.put name register) =
      Tail.records register.nodes + records (registers.erase name) :=
  Directory.total_put _ _ _ _

theorem Registers.nodesOf_records (registers : Registers T) :
    nodesOf registers.records = registers.owned := by
  rw [nodesOf, records, Directory.map_total]
  simp only [Tail.records, Tail.map_node_segment]
  rfl

namespace Session

/-- The records of the lists that are still to be stored. -/
def stock (aside : List (String × Tail T)) : Multiset (Nat × Record T) :=
  (aside.map fun entry => Tail.records entry.2).sum

theorem stock_cons (name : String) (tail : Tail T) (aside : List (String × Tail T)) :
    stock ((name, tail) :: aside) = tail.records + stock aside := by
  rw [stock, List.map_cons, List.sum_cons]
  rfl

theorem stock_reverse (aside : List (String × Tail T)) : stock aside.reverse = stock aside := by
  rw [stock, List.map_reverse, List.sum_reverse, stock]

/-- Names with the links to the lists that are to be stored under them. -/
def links (aside : List (String × Tail T)) : List (String × Option Nat) :=
  aside.map fun entry => (entry.1, Tail.link entry.2)

theorem links_reverse (aside : List (String × Tail T)) :
    links aside.reverse = (links aside).reverse :=
  List.map_reverse

end Session

open Session (stock stock_cons stock_reverse links links_reverse)

/-- The machine keeps in records what the session has in its registers, and besides them only the
records that are `away`. -/
structure Represents (away : Multiset (Nat × Record T)) (machine : Machine T π)
    (session : Session T π) : Prop where
  store : machine.depot.store = session.store
  holders : machine.holders = session.registers.map Register.holder
  memory : machine.depot.memory.Holds (away + session.registers.records)

namespace Represents

variable {away : Multiset (Nat × Record T)} {machine : Machine T π} {session : Session T π}

theorem cast {other : Multiset (Nat × Record T)} (represents : Represents away machine session)
    (same : away = other) : Represents other machine session :=
  same ▸ represents

theorem get? (represents : Represents away machine session) (name : String) :
    machine.holders.get? name = (session.registers.get? name).map Register.holder := by
  rw [represents.holders, Directory.get?_map]

theorem first (represents : Represents away machine session) (name : String) :
    machine.first name = Tail.link (session.nodes name) := by
  simp only [Machine.first, Session.nodes, Registers.nodes, represents.get?]
  cases session.registers.get? name with
  | none => rfl
  | some register => exact register.first_holder

theorem holds (represents : Represents away machine session) (name : String) :
    machine.memory.Holds (Tail.records (session.nodes name) +
      (Registers.records (session.registers.erase name) + away)) := by
  apply represents.memory.cast
  rw [session.registers.records_eq name, Session.nodes]
  abel

theorem take (represents : Represents away machine session) (name : String) :
    (machine.take name).1 = Tail.link (session.take name).1 ∧
      Represents (Tail.records (session.take name).1 + away) (machine.take name).2
        (session.take name).2 := by
  refine ⟨represents.first name, represents.store, ?_, represents.memory.cast ?_⟩
  · exact (congrArg _ represents.holders).trans (Directory.map_erase _ _ _).symm
  · rw [session.registers.records_eq name]
    exact (add_left_comm _ _ _).trans (add_assoc _ _ _).symm

/-- While a list is walked through, it is away from its name. -/
theorem take_zipper (represents : Represents 0 machine session) {name : String}
    {zipper : Zipper T} (listed : zipper.nodes = session.nodes name) :
    Represents (zipper.nodes.records + stock [])
      { machine with holders := machine.holders.erase name }
      { session with registers := session.registers.erase name } := by
  have taken := (represents.take name).2
  rw [listed]
  exact taken

theorem take? (represents : Represents away machine session) (source : Option String) :
    (machine.take? source).1 = Tail.link (session.take? source).1 ∧
      Represents (Tail.records (session.take? source).1 + away) (machine.take? source).2
        (session.take? source).2 := by
  cases source with
  | none => exact ⟨rfl, represents.cast (zero_add _).symm⟩
  | some name => exact represents.take name

theorem gather {tail : Tail T} (represents : Represents (tail.records + away) machine session) :
    machine.memory.gather tail.link = .ok tail :=
  (represents.memory.cast (add_assoc _ _ _)).gather

theorem put (name : String) (register : Register T)
    (store : machine.depot.store = session.store)
    (holders : machine.holders = session.registers.map Register.holder)
    (memory : machine.depot.memory.Holds (away + (Tail.records register.nodes +
      Registers.records (session.registers.erase name)))) :
    Represents away { machine with holders := machine.holders.put name register.holder }
      { session with registers := session.registers.put name register } where
  store := store
  holders := by rw [holders, Directory.map_put]
  memory := memory.cast (by rw [Registers.records_put])

theorem of_put {registers : Registers T} {memory : Memory T} (store : Store T π) (name : String)
    (register : Register T) (held : memory.Holds (Tail.records register.nodes +
      Registers.records (registers.erase name))) :
    Represents 0 ⟨⟨store, memory⟩, (registers.map Register.holder).put name register.holder⟩
      ⟨store, registers.put name register⟩ where
  store := rfl
  holders := (Directory.map_put _ _ _ _).symm
  memory := held.cast (by rw [Registers.records_put, zero_add])

theorem setNodes {name : String} {nodes : Tail T} (store : machine.depot.store = session.store)
    (holders : machine.holders = session.registers.map Register.holder)
    (memory : machine.depot.memory.Holds (away + (Tail.records nodes +
      Registers.records (session.registers.erase name)))) :
    Represents away (machine.setFirst name nodes.link) (session.setNodes name nodes) := by
  have found : machine.holders.get? name =
      (session.registers.get? name).map Register.holder := by rw [holders, Directory.get?_map]
  simp only [Machine.setFirst, Session.setNodes, found]
  cases session.registers.get? name with
  | none => exact put name (.loose nodes) store holders memory
  | some register =>
    simp only [Option.map_some, Register.withFirst_holder]
    refine put name _ store holders (memory.cast ?_)
    rw [Register.nodes_withNodes]

variable [Parent π]

theorem discard {tail : Tail T} (represents : Represents (tail.records + away) machine session) :
    ∃ after, machine.discard tail.link = .ok ((session.discard tail).1, after) ∧
      Represents away after (session.discard tail).2 := by
  obtain ⟨⟨store, memory⟩, holders⟩ := machine
  obtain ⟨rfl, rfl, held⟩ := represents
  obtain ⟨left, discarded, kept⟩ := Depot.discard_eq
    (held.cast (add_assoc _ _ _)) session.store
  refine ⟨⟨⟨_, left⟩, _⟩, ?_, rfl, rfl, kept⟩
  simp only [Machine.discard, discarded, ok_bind, pure_eq_ok]
  rfl

theorem put_eq (name : String) (register : Register T)
    (represents : Represents (Tail.records register.nodes + away) machine session) :
    ∃ after, machine.put name register.holder = .ok ((session.put name register).1, after) ∧
      Represents away after (session.put name register).2 := by
  have stored : Represents (Tail.records (session.nodes name) + away)
      { machine with holders := machine.holders.put name register.holder }
      { session with registers := session.registers.put name register } := by
    refine put name register represents.store represents.holders (represents.memory.cast ?_)
    rw [session.registers.records_eq name, Session.nodes]
    abel
  obtain ⟨after, discarded, kept⟩ := stored.discard
  rw [Machine.put, represents.first]
  exact ⟨after, discarded, kept⟩

theorem dispose_eq {target : Option String} {tail : Tail T}
    (represents : Represents (tail.records + away) machine session) :
    ∃ after, machine.dispose target tail.link = .ok ((session.dispose target tail).1, after) ∧
      Represents away after (session.dispose target tail).2 := by
  cases target with
  | none => exact represents.discard
  | some name => exact put_eq name (.loose tail) represents

theorem putAll_eq {aside : List (String × Tail T)}
    (represents : Represents (stock aside + away) machine session) :
    ∃ after, machine.putAll (links aside) = .ok ((session.putAll aside).1, after) ∧
      Represents away after (session.putAll aside).2 := by
  induction aside generalizing machine session with
  | nil => exact ⟨machine, rfl, represents.cast (zero_add _)⟩
  | cons entry rest ih =>
    obtain ⟨name, tail⟩ := entry
    rw [stock_cons, add_assoc] at represents
    obtain ⟨between, stored, kept⟩ := put_eq name (.loose tail) represents
    obtain ⟨after, later, held⟩ := ih kept
    refine ⟨after, ?_, held⟩
    have first : (machine.put name (.loose tail.link)) = _ := stored
    simp only [links, List.map_cons] at later ⊢
    simp only [Machine.putAll, first, ok_bind, later, pure_eq_ok]
    rfl

end Represents

section Reading

variable {away : Multiset (Nat × Record T)} {machine : Machine T π} {session : Session T π}
  (represents : Represents away machine session)

include represents

theorem Represents.info_eq (name : String) : machine.info name = .ok (session.info name) := by
  have holds := represents.holds name
  have found := represents.get? name
  simp only [Machine.info, Session.info, found]
  cases registered : session.registers.get? name with
  | none => rfl
  | some register =>
    cases register with
    | loose tail => rfl
    | chain chain =>
      rw [session.nodes_of_chain registered] at holds
      simp only [Option.map_some, Register.holder, holds.gather, holds.next, ok_bind, pure_eq_ok,
        Tail.isNone_link]
      rfl

theorem Represents.follow_eq (name : String) (position : Nat) :
    machine.memory.follow position (machine.first name) =
      .ok (Tail.link ((session.nodes name).drop position)) := by
  rw [represents.first, (represents.holds name).follow]

theorem Represents.isFrontOfChain_eq (name : String) (position : Nat) :
    machine.isFrontOfChain name position = session.isFrontOfChain name position := by
  have found := represents.get? name
  cases position with
  | succ position => rfl
  | zero =>
    simp only [Machine.isFrontOfChain, Session.isFrontOfChain, found]
    cases session.registers.get? name with
    | none => rfl
    | some register => cases register <;> rfl

/-- The node at a position in a register has its record in the memory, and so has what follows. -/
theorem Represents.holds_drop {name : String} {position : Nat} {node : Node T} {behind : Tail T}
    (there : (session.nodes name).drop position = node :: behind) :
    ∃ others, machine.memory.Holds (Tail.records (node :: behind) + others) := by
  obtain ⟨others, held⟩ := (represents.holds name).drop position
  rw [there] at held
  exact ⟨others, held⟩

theorem Represents.inspect_eq (name : String) (position : Nat) :
    machine.inspect name position = .ok (session.inspect name position) := by
  simp only [Machine.inspect, Session.inspect, represents.follow_eq, ok_bind]
  cases there : (session.nodes name).drop position with
  | nil => rfl
  | cons node behind =>
    obtain ⟨others, held⟩ := represents.holds_drop there
    rw [Tail.records_cons, Multiset.cons_add] at held
    have next := (held.cast (Multiset.add_cons _ _ _).symm).next
    simp only [Tail.link_cons, held.read, ok_bind, next, pure_eq_ok]
    rfl

theorem Represents.values_eq (name : String) :
    machine.values name = .ok (.answer (.values (Tail.values (session.nodes name)))) := by
  rw [Machine.values, represents.first, (represents.holds name).gather]
  rfl

theorem Represents.render_eq (name : String) (position : Option Nat) (style : Option Style) :
    machine.render name position style = .ok (session.render name position style) := by
  cases position with
  | some position =>
    simp only [Machine.render, Session.render, represents.follow_eq, ok_bind]
    rw [← List.head?_drop]
    cases there : (session.nodes name).drop position with
    | nil => rfl
    | cons node behind =>
      obtain ⟨others, held⟩ := represents.holds_drop there
      rw [Tail.records_cons, Multiset.cons_add] at held
      simp only [Tail.link_cons, held.read, ok_bind, pure_eq_ok]
      cases style <;> rfl
  | none =>
    have found := represents.get? name
    simp only [Machine.render, Session.render, represents.first, (represents.holds name).gather,
      ok_bind, found]
    cases registered : session.registers.get? name with
    | none => cases style <;> rfl
    | some register =>
      cases register with
      | loose tail => cases style <;> rfl
      | chain chain =>
        rw [session.nodes_of_chain registered]
        cases style <;> rfl

theorem Represents.stream_eq (name : String) (position : Nat) (steps : Option (List StreamStep)) :
    machine.stream name position steps = .ok (session.stream name position steps) := by
  obtain ⟨others, held⟩ := (represents.holds name).drop position
  simp only [Machine.stream, Session.stream, represents.follow_eq, ok_bind, Tail.isNone_link,
    represents.isFrontOfChain_eq]
  split
  · rfl
  · cases steps with
    | none => rfl
    | some steps => simp only [held.stream, ok_bind, pure_eq_ok]

theorem Represents.cursor_eq (name : String) (position : Nat) (steps : Option (List CursorStep)) :
    machine.cursor name position steps = .ok (session.cursor name position steps) := by
  simp only [Machine.cursor, Session.cursor, represents.follow_eq, ok_bind,
    represents.isFrontOfChain_eq]
  cases there : (session.nodes name).drop position with
  | nil =>
    simp only [Tail.link_nil, Cursor.ofTail?]
    split <;> rfl
  | cons node behind =>
    obtain ⟨others, held⟩ := represents.holds_drop there
    cases steps with
    | none => rfl
    | some steps =>
      have here : (⟨node, behind⟩ : Cursor T).nodes <:+ node :: behind := List.suffix_rfl
      have looked : machine.memory.look node.addr node.addr steps = _ := held.look here here steps
      simp only [Tail.link_cons, Cursor.ofTail?, looked, ok_bind]
      cases Cursor.look ⟨node, behind⟩ ⟨node, behind⟩ steps <;> rfl

end Reading

theorem Tail.cutAfter?_of_drop_nil {tail : Tail T} {position : Nat}
    (there : tail.drop position = []) : cutAfter? position tail = none := by
  have short := List.drop_eq_nil_iff.1 there
  simp only [cutAfter?, Nat.not_lt.2 short, ↓reduceIte]

theorem Tail.cutAfter?_of_drop_cons {tail cut : Tail T} {position : Nat} {node : Node T}
    (there : tail.drop position = node :: cut) :
    cutAfter? position tail = some (tail.take position ++ [node], cut) ∧
      tail = tail.take position ++ node :: cut := by
  have whole : tail = tail.take position ++ node :: cut := by
    rw [← there, List.take_append_drop]
  have inside : position < tail.length := by
    refine Nat.lt_of_not_le fun short => ?_
    rw [List.drop_eq_nil_iff.2 short] at there
    cases there
  refine ⟨?_, whole⟩
  have cut_eq : tail.drop (position + 1) = cut := by
    rw [← List.drop_drop, there]
    rfl
  have node_eq : tail[position] = node := by
    rw [List.drop_eq_getElem_cons inside, List.cons.injEq] at there
    exact there.1
  simp only [cutAfter?, inside, ↓reduceIte, cut_eq, List.take_succ_eq_append_getElem inside,
    node_eq]

/-- The two sides of an operation match: the same reply, the same store, and, unless the run ends,
the lists of the session in the memory of the machine. -/
structure Matches (expected : Reply T × Session T π) (result : Reply T × Machine T π) : Prop where
  reply : result.1 = expected.1
  store : result.2.store = expected.2.store
  represents : expected.1.isAbort = false → Represents 0 result.2 expected.2

theorem Represents.matched {machine : Machine T π} {session : Session T π}
    (represents : Represents 0 machine session) (reply : Reply T) :
    Matches (reply, session) (reply, machine) :=
  ⟨rfl, represents.store, fun _ => represents⟩

theorem Represents.withStore {machine : Machine T π} {session : Session T π}
    (represents : Represents 0 machine session) (store : Store T π) :
    Represents 0 (machine.withStore store) { session with store } :=
  ⟨rfl, represents.holders, represents.memory⟩

theorem outcome_conclude {careless : Prop} {reply : Reply T}
    {result : Except Hazard (Option Fault × Machine T π)} {expected : Option Fault × Session T π}
    (done : ∃ after, result = .ok (expected.1, after) ∧ Represents 0 after expected.2) :
    Outcome careless (Matches (Session.conclude reply expected))
      (do return Machine.conclude reply (← result)) := by
  obtain ⟨after, rfl, represents⟩ := done
  exact .ok (represents.matched _)

/-- Another list behind a node of a register, and the list that stood there away from it. -/
theorem Represents.relink {away : Multiset (Nat × Record T)} {machine : Machine T π}
    {session : Session T π} {name : String}
    {front cut successors : Tail T} {node : Node T}
    (represents : Represents (Tail.records successors + away) machine session)
    (nodes : session.nodes name = front ++ node :: cut) :
    ∃ after, machine.relink node.addr successors.link = .ok (cut.link, after) ∧
      Represents (Tail.records cut + away) (after.setFirst name (Tail.link (session.nodes name)))
        (session.setNodes name (front ++ node :: successors)) := by
  obtain ⟨⟨store, memory⟩, holders⟩ := machine
  obtain ⟨rfl, rfl, held⟩ := represents
  have whole : memory.Holds ((node.addr, ⟨node.value, cut.link, node.owner⟩) ::ₘ
      (Tail.segment front (some node.addr) + Tail.records cut + Tail.records successors + away +
        Registers.records (session.registers.erase name))) := by
    apply held.cast
    rw [session.registers.records_eq name, show session.registers.nodes name = _ from nodes,
      Tail.records_split, ← Multiset.singleton_add, ← Multiset.singleton_add]
    abel
  obtain ⟨linked, relinked, kept⟩ := whole.relink successors.link
  have same : Tail.link (session.nodes name) = Tail.link (front ++ node :: successors) := by
    rw [nodes, Tail.link_append, Tail.link_append]
    rfl
  refine ⟨⟨⟨session.store, linked⟩, session.registers.map Register.holder⟩, ?_, ?_⟩
  · simp only [Machine.relink, Machine.memory, relinked, ok_bind, pure_eq_ok]
  · rw [same]
    refine Represents.setNodes rfl rfl (kept.cast ?_)
    rw [Tail.records_split, ← Multiset.singleton_add, ← Multiset.singleton_add]
    abel

section Operations

variable [Parent π] {careless : Prop} {machine : Machine T π} {session : Session T π}

theorem Represents.node_outcome (represents : Represents 0 machine session)
    (careful : Careful careless session.store session.owned) (target : String) (demand : Demand)
    (owner : Handle T) (value : Int64) :
    Outcome careless (Matches (session.node target demand owner value))
      (machine.node target demand owner value) := by
  obtain ⟨⟨store, memory⟩, holders⟩ := machine
  obtain ⟨rfl, rfl, held⟩ := represents
  rw [Session.owned, ← Registers.nodesOf_records] at careful
  rw [zero_add] at held
  simp only [Machine.node, Session.node]
  rcases asked : Node.allocate demand owner value session.store with ⟨failure | node, store⟩
  · simp only [Depot.allocate_error asked, ok_bind, pure_eq_ok]
    exact .ok ⟨rfl, rfl, fun _ => ⟨rfl, rfl, held.cast (zero_add _).symm⟩⟩
  · apply (Depot.allocate_outcome held careful asked).bind
    rintro ⟨answer, depot⟩ allocated
    obtain ⟨rfl, rfl, kept⟩ := allocated
    simp only [(Node.of_allocate asked).1]
    refine outcome_conclude (Represents.put_eq target (.loose [node]) ⟨rfl, rfl, ?_⟩)
    exact kept.cast (by rw [add_zero]; rfl)

theorem Represents.chain_outcome (represents : Represents 0 machine session)
    (careful : Careful careless session.store session.owned) (target : String) (demand : Demand)
    (owner : Handle T) (values : List Int64) :
    Outcome careless (Matches (session.chain target demand owner values))
      (machine.chain target demand owner values) := by
  obtain ⟨⟨store, memory⟩, holders⟩ := machine
  obtain ⟨rfl, rfl, held⟩ := represents
  rw [Session.owned, ← Registers.nodesOf_records, ← zero_add (nodesOf _)] at careful
  have start : memory.Holds (Tail.records ([] : Tail T) + session.registers.records) := held
  simp only [Machine.chain, Session.chain, Depot.build, Chain.build]
  apply (Depot.buildOnto_outcome start careful).bind
  rintro ⟨answer, ⟨after, left⟩⟩ built
  rcases ended : Chain.buildOnto demand owner values.length values.reverse [] session.store with
    ⟨failure | nodes, store⟩
  · rw [ended] at built
    obtain ⟨same, rfl, kept⟩ := built
    simp only [Except.map] at same kept
    subst same
    refine .ok ⟨rfl, rfl, fun survived => ⟨rfl, rfl, ?_⟩⟩
    refine (kept fun layout same => ?_).cast (zero_add _).symm
    simp only [same, Reply.isAbort, Bool.true_eq_false] at survived
  · rw [ended] at built
    obtain ⟨same, rfl, kept⟩ := built
    simp only [Except.map] at same kept
    subst same
    simp only [kept.gather, ok_bind]
    refine outcome_conclude (Represents.put_eq target (.chain ⟨nodes, owner⟩) ⟨rfl, rfl, ?_⟩)
    exact kept.cast (by rw [add_zero]; rfl)

theorem Represents.empty_outcome (represents : Represents 0 machine session) (target : String)
    (owner : Handle T) :
    Outcome careless (Matches (session.empty target owner)) (machine.empty target owner) :=
  outcome_conclude (Represents.put_eq target (.chain (.empty owner))
    (represents.cast (zero_add _).symm))

theorem Represents.link_outcome (represents : Represents 0 machine session) (name : String)
    (position : Nat) (source target : Option String) :
    Outcome careless (Matches (session.link name position source target))
      (machine.link name position source target) := by
  simp only [Machine.link, Session.link]
  split
  · exact .ok (represents.matched _)
  · next differs =>
    simp only [represents.follow_eq, ok_bind]
    cases there : (session.nodes name).drop position with
    | nil =>
      simp only [Tail.cutAfter?_of_drop_nil there]
      exact .ok (represents.matched _)
    | cons node cut =>
      obtain ⟨kept, whole⟩ := Tail.cutAfter?_of_drop_cons there
      obtain ⟨same, taken⟩ := represents.take? source
      rw [← session.nodes_take?_of_ne differs] at whole
      obtain ⟨after, relinked, linked⟩ := taken.relink whole
      have found : after.memory.gather (Tail.link cut) = _ := linked.gather
      simp only [Tail.link_cons, kept, same, relinked, found, ok_bind, represents.first]
      rw [← session.nodes_take?_of_ne differs, List.append_assoc, List.singleton_append]
      exact outcome_conclude linked.dispose_eq

theorem Represents.unlink_outcome (represents : Represents 0 machine session) (name : String)
    (position : Nat) (target : Option String) :
    Outcome careless (Matches (session.unlink name position target))
      (machine.unlink name position target) := by
  simp only [Machine.unlink, Session.unlink, represents.follow_eq, ok_bind]
  cases there : (session.nodes name).drop position with
  | nil =>
    simp only [Tail.cutAfter?_of_drop_nil there]
    exact .ok (represents.matched _)
  | cons node cut =>
    obtain ⟨kept, whole⟩ := Tail.cutAfter?_of_drop_cons there
    have start : Represents (Tail.records [] + 0) machine session := represents
    obtain ⟨after, relinked, linked⟩ := start.relink whole
    have found : after.memory.gather (Tail.link cut) = _ := linked.gather
    have unlinked : machine.relink node.addr none = _ := relinked
    simp only [Tail.link_cons, kept, unlinked, found, ok_bind, represents.first]
    exact outcome_conclude linked.dispose_eq

theorem Represents.release_outcome (represents : Represents 0 machine session) (name : String)
    (target : Option String) :
    Outcome careless (Matches (session.release name target)) (machine.release name target) := by
  obtain ⟨same, taken⟩ := represents.take name
  rcases away : session.take name with ⟨_ | ⟨node, rest⟩, others⟩
  · rw [away] at same taken
    rcases gone : machine.take name with ⟨link, left⟩
    rw [gone] at same taken
    obtain rfl : link = none := same
    simp only [Machine.release, Session.release, gone, away]
    exact .ok ((taken.cast (zero_add _)).matched _)
  · rw [away] at same taken
    rcases gone : machine.take name with ⟨link, ⟨⟨store, memory⟩, holders⟩⟩
    rw [gone] at same taken
    obtain rfl : link = some node.addr := same
    obtain ⟨rfl, rfl, held⟩ := taken
    rw [add_zero] at held
    simp only [Machine.release, Session.release, gone, away]
    rcases released : Tail.releaseHead node rest others.store with ⟨fault | left, store⟩
    · obtain ⟨kept, freed, whole⟩ := Depot.releaseHead_error held released
      simp only at freed
      simp only [freed, ok_bind, pure_eq_ok]
      exact .ok (Represents.matched ⟨rfl, rfl, whole.cast (zero_add _).symm⟩ _)
    · obtain ⟨kept, freed, whole⟩ := Depot.releaseHead_ok held released
      simp only at freed
      simp only [freed, ok_bind, whole.gather]
      refine outcome_conclude (Represents.dispose_eq ⟨rfl, rfl, ?_⟩)
      rw [add_zero]
      exact whole

theorem Represents.move_outcome (represents : Represents 0 machine session) (name : String)
    (target : Option String) :
    Outcome careless (Matches (session.move name target)) (machine.move name target) := by
  obtain ⟨same, taken⟩ := represents.take name
  simp only [Machine.move, Session.move]
  cases target with
  | none =>
    rw [same]
    exact outcome_conclude taken.discard
  | some target =>
    simp only [same, taken.gather, ok_bind]
    exact outcome_conclude (Represents.put_eq target (.loose _) taken)

theorem Represents.drop_outcome (represents : Represents 0 machine session) (name : String) :
    Outcome careless (Matches (session.drop name)) (machine.drop name) := by
  obtain ⟨same, taken⟩ := represents.take name
  have there : (machine.holders.get? name).isSome = (session.registers.get? name).isSome := by
    rw [represents.get?, Option.isSome_map]
  simp only [Machine.drop, Session.drop, same, there]
  exact outcome_conclude taken.discard

theorem Represents.intoHead_outcome (represents : Represents 0 machine session) (name : String)
    (target : Option String) :
    Outcome careless (Matches (session.intoHead name target)) (machine.intoHead name target) := by
  obtain ⟨same, taken⟩ := represents.take name
  simp only [Machine.intoHead, Session.intoHead, represents.get?]
  cases session.registers.get? name with
  | none => exact .ok (represents.matched _)
  | some register =>
    cases register with
    | loose tail => exact .ok (represents.matched _)
    | chain chain =>
      simp only [Option.map_some, Register.holder, same, taken.gather, ok_bind]
      exact outcome_conclude taken.dispose_eq

theorem Represents.pushFront_outcome (represents : Represents 0 machine session)
    (careful : Careful careless session.store session.owned) (name : String) (demand : Demand)
    (value : Int64) :
    Outcome careless (Matches (session.pushFront name demand value))
      (machine.pushFront name demand value) := by
  simp only [Machine.pushFront, Session.pushFront, represents.get?]
  cases registered : session.registers.get? name with
  | none => exact .ok (represents.matched _)
  | some register =>
    cases register with
    | loose tail => exact .ok (represents.matched _)
    | chain chain =>
      obtain ⟨nodes, owner⟩ := chain
      have held := represents.holds name
      rw [session.nodes_of_chain registered, add_zero] at held
      rw [session.owned_eq name, session.nodes_of_chain registered, Registers.others,
        ← Registers.nodesOf_records] at careful
      obtain ⟨⟨store, memory⟩, holders⟩ := machine
      obtain ⟨rfl, rfl, -⟩ := represents
      simp only [Option.map_some, Register.holder, Chain.pushFront]
      rcases asked : Node.allocate demand owner value session.store with ⟨failure | node, store⟩
      · simp only [Depot.pushOnto_error asked, ok_bind, pure_eq_ok]
        exact .ok ((Represents.of_put store name (.chain ⟨nodes, owner⟩) held).matched _)
      · apply (Depot.pushOnto_outcome held careful asked).bind
        rintro ⟨answer, depot⟩ pushed
        obtain ⟨rfl, rfl, whole⟩ := pushed
        exact .ok ((Represents.of_put depot.store name (.chain ⟨node :: nodes, owner⟩)
          whole).matched _)

theorem Represents.popFront_outcome (represents : Represents 0 machine session) (name : String) :
    Outcome careless (Matches (session.popFront name)) (machine.popFront name) := by
  simp only [Machine.popFront, Session.popFront, represents.get?]
  cases registered : session.registers.get? name with
  | none => exact .ok (represents.matched _)
  | some register =>
    cases register with
    | loose tail => exact .ok (represents.matched _)
    | chain chain =>
      obtain ⟨nodes, owner⟩ := chain
      have held := represents.holds name
      rw [session.nodes_of_chain registered, add_zero] at held
      obtain ⟨⟨store, memory⟩, holders⟩ := machine
      obtain ⟨rfl, rfl, -⟩ := represents
      simp only [Option.map_some, Register.holder]
      cases nodes with
      | nil =>
        exact .ok ((Represents.of_put session.store name (.chain ⟨[], owner⟩) held).matched _)
      | cons node rest =>
        have whole : memory.Holds (Tail.records (Zipper.nodes ⟨[], node, rest⟩) + _) := held
        rcases freed : Tail.releaseHead node rest session.store with ⟨fault | left, store⟩
        · have released : Zipper.release ⟨[], node, rest⟩ session.store =
              (.error fault, [], store) := by
            simp only [Zipper.release, freed, List.reverse_nil]
          obtain ⟨kept, edited, after⟩ := Zipper.release_editor whole released
          have popped : (⟨some node.addr, .head⟩ : Editor).release
            (⟨session.store, memory⟩ : Depot T π) = _ := edited
          simp only [Tail.link_cons, Editor.ofLink?, popped, ok_bind, pure_eq_ok, Chain.popFront,
            freed]
          exact .ok ((Represents.of_put store name (.chain ⟨[], owner⟩) after).matched _)
        · have released : Zipper.release ⟨[], node, rest⟩ session.store =
              (.ok node.value, left, store) := by
            simp only [Zipper.release, freed, List.reverse_nil, List.nil_append, Zipper.value]
          obtain ⟨kept, edited, after⟩ := Zipper.release_editor whole released
          have popped : (⟨some node.addr, .head⟩ : Editor).release
            (⟨session.store, memory⟩ : Depot T π) = _ := edited
          simp only [Tail.link_cons, Editor.ofLink?, popped, ok_bind, pure_eq_ok, Chain.popFront,
            freed]
          exact .ok ((Represents.of_put store name (.chain ⟨left, owner⟩) after).matched _)

theorem Zipper.record_editor {zipper : Zipper T} {memory : Memory T}
    {rest : Multiset (Nat × Record T)} (holds : memory.Holds (zipper.nodes.records + rest)) :
    zipper.editor.record memory =
      .ok ⟨zipper.focus.value, Tail.link zipper.rest, zipper.focus.owner⟩ := by
  rw [Editor.record, addr_editor holds, ok_bind, (record_focus holds).read]

theorem Zipper.next_editor {zipper : Zipper T} {memory : Memory T}
    {rest : Multiset (Nat × Record T)} (holds : memory.Holds (zipper.nodes.records + rest)) :
    memory.next (Tail.link zipper.rest) =
      .ok (zipper.rest.head?.map Node.value, Tail.link zipper.rest.tail) :=
  ((record_focus holds).cast (Multiset.add_cons _ _ _).symm).next

/-- Wherever they start, these steps along the links end as they do along the list. -/
def Zipper.Followed (π : Type) [Parent π] (T : Layering) (steps : List WalkStep) : Prop :=
  ∀ (answers : List (Answer T)) {aside : List (String × Tail T)} {zipper : Zipper T}
    {machine : Machine T π} {session : Session T π},
    Represents (zipper.nodes.records + stock aside) machine session →
      let walked := zipper.walk answers aside session steps
      ∃ after, zipper.editor.walk answers (links aside) machine steps =
          .ok ⟨walked.reply, Tail.link walked.left, links walked.aside, after⟩ ∧
        Represents (Tail.records walked.left + stock walked.aside) after walked.session

theorem Zipper.Followed.link {steps : List WalkStep} (behind : Followed π T steps)
    (source target : Option String) : Followed π T (.link source target :: steps) := by
  intro answers aside zipper machine session represents
  obtain ⟨same, taken⟩ := represents.take? source
  rcases gone : machine.take? source with ⟨link, ⟨⟨store, memory⟩, holders⟩⟩
  rcases away : session.take? source with ⟨successors, others⟩
  rw [gone, away] at same taken
  obtain rfl : link = Tail.link successors := same
  obtain ⟨rfl, rfl, held⟩ := taken
  have whole : memory.Holds (zipper.nodes.records +
      (Tail.records successors + (stock aside + others.registers.records))) :=
    held.cast (by abel)
  obtain ⟨left, relinked, exchanged⟩ := relink_focus whole
  have place := addr_editor whole
  simp only [Editor.walk, walk, gone, away, Machine.memory, Machine.relink, place, relinked,
    ok_bind, pure_eq_ok]
  have cut := (exchanged.cast (add_left_comm _ _ _)).gather
  simp only [cut, ok_bind]
  cases target with
  | some name =>
    have onward : Represents ((zipper.link successors).2.nodes.records +
        stock ((name, (zipper.link successors).1) :: aside))
        ⟨⟨others.store, left⟩, others.registers.map Register.holder⟩ others := by
      refine ⟨rfl, rfl, exchanged.cast ?_⟩
      rw [stock_cons]
      abel
    exact behind _ onward
  | none =>
    have apart : Represents (Tail.records (zipper.link successors).1 +
        ((zipper.link successors).2.nodes.records + stock aside))
        ⟨⟨others.store, left⟩, others.registers.map Register.holder⟩ others :=
      ⟨rfl, rfl, exchanged.cast (by abel)⟩
    obtain ⟨after, discarded, kept⟩ := apart.discard
    rcases dropped : others.discard (zipper.link successors).1 with ⟨_ | fault, between⟩
    · rw [dropped] at discarded kept
      simp only [discarded, ok_bind]
      have onward : Represents ((zipper.link successors).2.nodes.records + stock aside) after
          between := kept
      exact behind _ onward
    · rw [dropped] at discarded kept
      simp only [discarded, ok_bind, ← links_reverse]
      refine ⟨after, ?_, kept.cast (by rw [stock_reverse])⟩
      rw [← Zipper.first_editor]
      rfl

theorem Zipper.followed (steps : List WalkStep) : Followed π T steps := by
  induction steps with
  | nil =>
    intro answers aside zipper machine session represents
    refine ⟨machine, ?_, represents.cast ?_⟩
    · simp only [Editor.walk, Zipper.walk, Zipper.first_editor, links_reverse]
    · simp only [Zipper.walk, stock_reverse]
  | cons step steps ih =>
    intro answers aside zipper machine session represents
    have place : machine.memory.Holds _ := represents.memory.cast (add_assoc _ _ _)
    have record := Zipper.record_editor place
    have next := Zipper.next_editor place
    cases step with
    | value =>
      simp only [Editor.walk, record, ok_bind]
      exact ih _ represents
    | terminal =>
      simp only [Editor.walk, record, ok_bind, Tail.isNone_link]
      exact ih _ represents
    | valueAndNext =>
      simp only [Editor.walk, record, ok_bind, next]
      exact ih _ represents
    | next =>
      simp only [Editor.walk, record, ok_bind, next]
      exact ih _ represents
    | owner =>
      simp only [Editor.walk, record, ok_bind]
      exact ih _ represents
    | unrecognised => exact ih _ represents
    | render style =>
      cases style with
      | none =>
        refine ⟨machine, ?_, represents.cast ?_⟩
        · simp only [Editor.walk, Zipper.walk, Zipper.first_editor, links_reverse]
        · simp only [Zipper.walk, stock_reverse]
      | some style =>
        simp only [Editor.walk, record, ok_bind]
        exact ih _ represents
    | advance =>
      have advanced := Zipper.advance?_editor place
      simp only [Editor.walk, Zipper.walk, advanced, ok_bind]
      cases moves : zipper.advance? with
      | some moved =>
        refine ih _ (represents.cast ?_)
        rw [(Zipper.nodes_of_advance? moves).1]
      | none =>
        refine ⟨machine, ?_, represents.cast ?_⟩
        · simp only [Option.map_none, pure_eq_ok, Zipper.first_editor, links_reverse]
        · simp only [stock_reverse]
    | release =>
      obtain ⟨⟨store, memory⟩, holders⟩ := machine
      obtain ⟨rfl, rfl, -⟩ := represents
      rcases released : zipper.release session.store with ⟨result, left, store⟩
      obtain ⟨kept, edited, after⟩ := Zipper.release_editor place released
      have freed : zipper.editor.release (⟨session.store, memory⟩ : Depot T π) = _ := edited
      have ended : Represents (Tail.records left + stock aside.reverse)
          ⟨⟨store, kept⟩, session.registers.map Register.holder⟩ ⟨store, session.registers⟩ := by
        refine ⟨rfl, rfl, after.cast ?_⟩
        rw [stock_reverse, add_assoc]
      simp only [Editor.walk, Zipper.walk, released, freed, ok_bind, pure_eq_ok, ← links_reverse]
      cases result with
      | ok value => exact ⟨_, rfl, ended⟩
      | error fault => exact ⟨_, rfl, ended⟩
    | splitOff target => exact ih.link none target _ represents
    | link source target => exact ih.link source target _ represents

theorem Represents.walk_outcome (represents : Represents 0 machine session) (name : String)
    (steps : List WalkStep) :
    Outcome careless (Matches (session.walk name steps)) (machine.walk name steps) := by
  simp only [Machine.walk, Session.walk, represents.get?]
  cases registered : session.registers.get? name with
  | none => exact .ok (represents.matched _)
  | some register =>
    simp only [Option.map_some, Register.first_holder, Zipper.editor_ofTail?]
    cases place : Zipper.ofTail? register.nodes with
    | none => exact .ok (represents.matched _)
    | some zipper =>
      have listed : zipper.nodes = session.nodes name := by
        rw [(Zipper.nodes_of_ofTail? place).1, Session.nodes, Registers.nodes, registered]
      have absent : (session.registers.erase name).get? name = none := by
        simp only [Directory.get?_erase, ↓reduceIte]
      have still := zipper.walk_absent [] [] ⟨session.store, session.registers.erase name⟩ steps
        absent
      obtain ⟨after, followed, kept⟩ := Zipper.followed steps [] (represents.take_zipper listed)
      have walked : zipper.editor.walk [] []
        { machine with holders := machine.holders.erase name } steps = _ := followed
      simp only [Option.map_some, walked, ok_bind]
      generalize zipper.walk [] [] ⟨session.store, session.registers.erase name⟩ steps = ended
        at still kept ⊢
      obtain ⟨reply, left, aside, others⟩ := ended
      have back : Represents (stock aside + 0)
          { after with holders := after.holders.put name (register.withNodes left).holder }
          { others with registers := others.registers.put name (register.withNodes left) } := by
        refine Represents.put name _ kept.store kept.holders (kept.memory.cast ?_)
        rw [Register.nodes_withNodes, others.registers.records_eq name, Registers.nodes, still,
          Tail.records_nil]
        abel
      rw [Register.withFirst_holder]
      exact outcome_conclude back.putAll_eq

theorem Represents.allocate_matches (represents : Represents 0 machine session) (i : Fin T.size)
    (layout : Layout) : Matches (session.allocate i layout) (machine.allocate i layout) := by
  simp only [Machine.allocate, Session.allocate, Machine.store, represents.store]
  rcases session.store.allocate (some i) layout with ⟨failure | addr, store⟩
  · exact (represents.withStore store).matched _
  · exact (represents.withStore store).matched _

theorem Represents.deallocate_matches (represents : Represents 0 machine session)
    (i : Fin T.size) (addr : Nat) (layout : Layout) :
    Matches (session.deallocate i addr layout) (machine.deallocate i addr layout) := by
  simp only [Machine.deallocate, Session.deallocate, Machine.store, represents.store]
  exact (represents.withStore _).matched _

theorem Represents.exchange_matches (represents : Represents 0 machine session) (i : Fin T.size)
    (addr : Nat) (held wanted : Layout) :
    Matches (session.exchange i addr held wanted) (machine.exchange i addr held wanted) := by
  simp only [Machine.exchange, Session.exchange, Machine.store, represents.store]
  rcases session.store.exchange (some i) addr held wanted with ⟨failure | moved, store⟩
  · exact (represents.withStore store).matched _
  · exact (represents.withStore store).matched _

/-- An operation of the machine answers what the operation of the session answers, and leaves the
records of the lists that the session has then. -/
theorem Represents.perform_outcome (represents : Represents 0 machine session)
    (careful : Careful careless session.store session.owned) (op : Op T π) :
    Outcome careless (Matches (session.perform op)) (machine.perform op) := by
  have store : machine.store = session.store := represents.store
  cases op with
  | node target demand owner value =>
    exact represents.node_outcome careful target demand owner value
  | chain target demand owner values =>
    exact represents.chain_outcome careful target demand owner values
  | empty target owner => exact represents.empty_outcome target owner
  | inspect name position =>
    simp only [Machine.perform, represents.inspect_eq, ok_bind]
    exact .ok (represents.matched _)
  | link name position source target => exact represents.link_outcome name position source target
  | unlink name position target => exact represents.unlink_outcome name position target
  | release name target => exact represents.release_outcome name target
  | move name target => exact represents.move_outcome name target
  | drop name => exact represents.drop_outcome name
  | intoHead name target => exact represents.intoHead_outcome name target
  | pushFront name demand value => exact represents.pushFront_outcome careful name demand value
  | popFront name => exact represents.popFront_outcome name
  | info name =>
    simp only [Machine.perform, represents.info_eq, ok_bind]
    exact .ok (represents.matched _)
  | values name =>
    simp only [Machine.perform, represents.values_eq, ok_bind]
    exact .ok (represents.matched _)
  | render name position style =>
    simp only [Machine.perform, represents.render_eq, ok_bind]
    exact .ok (represents.matched _)
  | stream name position steps =>
    simp only [Machine.perform, represents.stream_eq, ok_bind]
    exact .ok (represents.matched _)
  | cursor name position steps =>
    simp only [Machine.perform, represents.cursor_eq, ok_bind]
    exact .ok (represents.matched _)
  | walk name steps => exact represents.walk_outcome name steps
  | setBudget i budget =>
    simp only [Machine.perform, store]
    exact .ok ((represents.withStore _).matched _)
  | ledger i =>
    simp only [Machine.perform, store]
    exact .ok (represents.matched _)
  | renderLedger i style =>
    simp only [Machine.perform, store]
    exact .ok (represents.matched _)
  | isLive i addr =>
    simp only [Machine.perform, store]
    exact .ok (represents.matched _)
  | allocate i layout => exact .ok (represents.allocate_matches i layout)
  | deallocate i addr layout => exact .ok (represents.deallocate_matches i addr layout)
  | exchange i addr held wanted => exact .ok (represents.exchange_matches i addr held wanted)
  | configure setting =>
    simp only [Machine.perform, store]
    exact .ok ((represents.withStore _).matched _)

end Operations

end ChainLedger
