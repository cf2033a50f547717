import ChainLedger.Proofs.Conformance
import ChainLedger.Proofs.Settlement

set_option autoImplicit false

namespace ChainLedger

variable {T : Layering} {π : Type}

/-- The list under a name, met from its head along the links. -/
def Machine.view (machine : Machine T π) (name : String) : Except Hazard (Option (Register T)) :=
  match machine.holders.get? name with
  | none => .ok none
  | some (.loose first) => do
      let nodes ← machine.memory.gather first
      return some (.loose nodes)
  | some (.chain first owner) => do
      let nodes ← machine.memory.gather first
      return some (.chain ⟨nodes, owner⟩)

/-- These lists are met along the links, and no address occurs twice in one of them or in two. -/
structure Machine.Shows (machine : Machine T π) (lists : Lists T) : Prop where
  met : ∀ name, machine.view name = .ok (lists name)
  unrepeated : ∀ name, ((lists.nodes name).map Node.addr).Nodup
  apart : ∀ name other, name ≠ other → ∀ node ∈ lists.nodes name,
    ∀ stranger ∈ lists.nodes other, node.addr ≠ stranger.addr

theorem Represents.view_eq {machine : Machine T π} {session : Session T π}
    (represents : Represents 0 machine session) (name : String) :
    machine.view name = .ok (session.lists name) := by
  have gathered := (represents.holds name).gather
  simp only [Machine.view, represents.get?, Session.lists]
  cases found : session.registers.get? name with
  | none => rfl
  | some register =>
    have nodes : session.nodes name = register.nodes := by
      rw [Session.nodes, Registers.nodes, found]
    rw [nodes] at gathered
    cases register with
    | loose tail =>
      simp only [Option.map_some, Register.holder]
      rw [show machine.memory.gather tail.link = .ok tail from gathered]
      rfl
    | chain chain =>
      simp only [Option.map_some, Register.holder]
      rw [show machine.memory.gather chain.nodes.link = .ok chain.nodes from gathered]
      rfl

theorem Tail.addr_mem_records {tail : Tail T} {node : Node T} (member : node ∈ tail) :
    node.addr ∈ tail.records.map Prod.fst := by
  rw [records, map_fst_segment, Multiset.mem_coe]
  exact List.mem_map_of_mem member

theorem Represents.shows {machine : Machine T π} {session : Session T π}
    (represents : Represents 0 machine session) : machine.Shows session.lists where
  met := represents.view_eq
  unrepeated name := (represents.holds name).addrs_nodup
  apart name other differs node member stranger found same := by
    have distinct := (represents.holds name).distinct
    have behind := Registers.records_eq other (session.registers.erase name)
    rw [Registers.nodes_erase_of_ne differs] at behind
    rw [behind, Multiset.map_add, Multiset.nodup_add] at distinct
    apply Multiset.disjoint_left.1 distinct.2.2 (Tail.addr_mem_records member)
    rw [Multiset.map_add, Multiset.map_add, Multiset.mem_add, Multiset.mem_add, same]
    exact Or.inl (Or.inl (Tail.addr_mem_records found))

section Runs

variable [Parent π]

theorem Session.run_performAll (ops : List (Op T π)) (session : Session T π)
    (calm : ∀ reply ∈ (session.performAll ops).1, reply.IsCalm) :
    Lists.Run session.lists ops (session.performAll ops).1 (session.performAll ops).2.lists := by
  induction ops generalizing session with
  | nil => exact .still
  | cons op ops ih =>
    obtain ⟨first, -⟩ := survived_cons fun reply member => (calm reply member).1
    rw [performAll_cons first] at calm ⊢
    obtain ⟨here, later⟩ := List.forall_mem_cons.1 calm
    exact .go (session.conforms_perform op here) (ih _ later)

/-- Every state that a machine gets to is one that a session represents. -/
theorem Machine.exists_represents {budgets : Fin T.size → Option Nat} {parent : π}
    {before : List (Op T π)} {given : List (Reply T)} {machine : Machine T π}
    (reached : performAll before (opened (.opened budgets parent)) = .ok (given, machine))
    (survived : Survived given) : ∃ session : Session T π, Represents 0 machine session := by
  have start := Represents.opened (T := T) (Store.opened budgets parent)
  have ran := start.performAll_outcome (Or.inl trivial : Careful True _ _) before
    fun _ _ => Or.inl trivial
  rw [reached] at ran
  cases ran with
  | ok matched =>
    obtain ⟨rfl, -, represents⟩ := matched
    exact ⟨_, represents survived⟩

/-- In every state that a machine gets to, whatever operations follow: it shows lists, it performs
the operations unless a record is written over another, and if none of them meets a fault, they act
on these lists one by one as the list equations say. A node that was in a list still is in one, with
the same address, value and allocator, or its release was written down. -/
theorem Machine.acts_performAll {budgets : Fin T.size → Option Nat} {parent : π}
    {before : List (Op T π)} {given : List (Reply T)} {machine : Machine T π}
    (reached : performAll before (opened (.opened budgets parent)) = .ok (given, machine))
    (survived : Survived given) (ops : List (Op T π))
    (intact : ∀ addr, performAll ops machine ≠ .error (.overwrite addr)) :
    ∃ lists replies after, machine.Shows lists ∧ performAll ops machine = .ok (replies, after) ∧
      ((∀ reply ∈ replies, reply.IsCalm) → ∃ later written, after.Shows later ∧
        Lists.Run lists ops replies later ∧
        after.store.events = machine.store.events ++ written ∧
        ∀ name, ∀ node ∈ lists.nodes name, (∃ other, node ∈ later.nodes other) ∨
          .nodeReleased node.value node.addr ∈ written) := by
  obtain ⟨session, represents⟩ := exists_represents reached survived
  have ran := represents.performAll_outcome (Or.inl trivial : Careful True _ _) ops
    fun _ _ => Or.inl trivial
  obtain ⟨⟨replies, after⟩, ended, rfl, store, kept⟩ := ran.exists_of_intact intact
  refine ⟨session.lists, _, after, represents.shows, ended, fun calm => ?_⟩
  have lasting : Survived (session.performAll ops).1 := fun reply member => (calm reply member).1
  obtain ⟨faults, traffic, -⟩ := session.accounts_performAll ops (fun _ _ _ => trivial) lasting
  obtain ⟨written, trace, -, stays⟩ := Settles.traffic traffic
  refine ⟨_, written.reverse, (kept lasting).shows, session.run_performAll ops calm, ?_, ?_⟩
  · have later : after.store = _ := store
    have earlier : machine.store = _ := represents.store
    rw [Store.events, Store.events, later, earlier, trace, List.reverse_append]
  · intro name node member
    rw [List.mem_reverse]
    rcases stays node (Registers.mem_owned.2 ⟨name, member⟩) with held | released
    · exact Or.inl (Registers.mem_owned.1 held)
    · exact Or.inr released

/-- Lists of two ledgers linked into one, cut, walked through and turned loose, with a push that a
budget refuses. -/
theorem Machine.acts_performAll_fork :
    let before : List (Op .fork Arena) := [.chain "front" .attempt (some (1 : Fin 3)) [1, 2, 3],
      .chain "back" .insist (some (2 : Fin 3)) [4, 5]]
    let ops : List (Op .fork Arena) := [.link "front" 1 (some "back") (some "cut"),
      .pushFront "front" .attempt 6, .setBudget (0 : Fin 3) (some 0),
      .pushFront "front" .attempt 7, .walk "front" [.advance, .advance, .release],
      .popFront "front", .info "front", .stream "front" 0 (some [.rest]), .unlink "front" 0 none,
      .intoHead "front" (some "head"), .release "cut" none]
    let start : Machine .fork Arena := opened (.opened (fun _ => none) (.ofCapacity 4096))
    ∃ given machine lists replies after later, performAll before start = .ok (given, machine) ∧
      machine.Shows lists ∧ performAll ops machine = .ok (replies, after) ∧ after.Shows later ∧
      Lists.Run lists ops replies later := by
  intro before ops start
  have lasting : start.answersAll (fun reply => reply.isAbort = false) before = true := by
    decide +kernel
  obtain ⟨given, machine, reached, survived⟩ := exists_of_answersAll lasting
  have quiet : (match performAll before start with
      | .ok (_, machine) => machine.answersAll Reply.IsCalm ops
      | .error _ => false) = true := by decide +kernel
  rw [reached] at quiet
  obtain ⟨replies, after, ran, calm⟩ := exists_of_answersAll quiet
  have intact : ∀ addr, performAll ops machine ≠ .error (.overwrite addr) := by
    rw [ran]
    intro addr same
    cases same
  obtain ⟨lists, _, _, seen, same, acts⟩ := acts_performAll reached survived ops intact
  obtain ⟨rfl, rfl⟩ := Prod.mk.inj (Except.ok.inj (ran.symm.trans same))
  obtain ⟨later, _, shown, run, _⟩ := acts calm
  exact ⟨given, machine, lists, replies, after, later, reached, seen, ran, shown, run⟩

end Runs

end ChainLedger
