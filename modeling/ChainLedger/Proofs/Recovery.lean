import ChainLedger.Proofs.Assembly
import ChainLedger.Proofs.Draining

set_option autoImplicit false

namespace ChainLedger

variable {T : Layering} {π : Type} {i : Fin T.size}

/-- The lists of a machine, and the records that they are made of, are what they were before. -/
structure Machine.Unchanged (before after : Machine T π) : Prop where
  represented : ∃ session : Session T π, Represents 0 after session
  views : ∀ name, after.view name = before.view name
  memory : after.memory = before.memory

theorem Represents.unchanged {machine after : Machine T π} {session session' : Session T π}
    (represents : Represents 0 machine session) (represents' : Represents 0 after session')
    (views : ∀ name, after.view name = machine.view name) : machine.Unchanged after := by
  refine ⟨⟨session', represents'⟩, views, represents'.memory_eq represents fun name => ?_⟩
  exact represents.nodes_eq represents' (views name)

theorem Represents.unchanged_of_becomes {machine after : Machine T π} {session : Session T π}
    {name : String} {register : Option (Register T)} {store : Store T π}
    (represents : Represents 0 machine session) (found : machine.view name = .ok register)
    (becomes : machine.Becomes name register store after) : machine.Unchanged after := by
  obtain ⟨session', represents'⟩ := becomes.represented
  refine represents.unchanged represents' fun other => ?_
  by_cases here : other = name
  · rw [here, becomes.view, found]
  · exact becomes.others other here

variable [Parent π]

section Collisions

variable {demand : Demand} {owner : Handle T} {value : Int64} {built : Tail T} {addr : Nat}
  {fault : Fault} {before cut after : Store T π}

theorem Node.refused_of_allocate {failure : Failure}
    (failed : allocate demand owner value before = (.error failure, after))
    (quiet : ∀ fault, failure ≠ .fault fault) :
    before.allocate owner (recordLayout π owner) = (.error .refused, after) ∧
      failure = demand.onRefusal (recordLayout π owner) := by
  rw [allocate] at failed
  rcases asked : before.allocate owner (recordLayout π owner) with
    ⟨(_ | fault | layout) | addr, between⟩
  · rw [asked] at failed
    cases failed
    exact ⟨rfl, rfl⟩
  · rw [asked] at failed
    cases failed
    exact absurd rfl (quiet fault)
  · exact absurd (congrArg Prod.fst asked) (Store.allocateAlong_ne_aborted _ _ _ _)
  · rw [asked] at failed
    cases failed

/-- A release finds that a block is not live or has another layout, and nothing else. -/
theorem Node.free_ne_liveBlockReturned (node : Node T) (store : Store T π) (addr : Nat) :
    (node.free store).1 ≠ some (.liveBlockReturned addr) := by
  intro failed
  obtain ⟨_, _, _, _, rejected⟩ := Node.rejectedAt_free failed
  have positive := (recordLayout_proper (π := π) node.owner).2
  cases (Ledger.strike_eq_some_iff positive).1 rejected.found

theorem Tail.discard_ne_liveBlockReturned (tail : Tail T) (store : Store T π) (addr : Nat) :
    (discard tail store).1 ≠ some (.liveBlockReturned addr) := by
  induction tail generalizing store with
  | nil => nofun
  | cons node rest ih =>
    rw [discard_cons]
    intro failed
    rcases Option.or_eq_some_iff.1 failed with here | ⟨-, behind⟩
    · exact node.free_ne_liveBlockReturned store addr here
    · exact ih _ behind

/-- Ledger `i` has been handed a block that it holds already. It has counted the block and put its
layout on record, and nothing else has changed but the parent. -/
structure Collided (i : Fin T.size) (addr : Nat) (before after : Store T π) : Prop where
  held : (before.ledger i).isLive addr = true
  entered : after.ledger i = ((before.ledger i).enter addr (recordLayout π (some i))).2
  others : ∀ j, j ≠ i → after.ledger j = before.ledger j
  trace : after.trace = before.trace

theorem Node.collided_of_allocate (bottom : T.below i = none)
    (failed : allocate demand (some i) value before = (.error (.fault fault), after)) :
    ∃ addr, fault = .liveBlockReturned addr ∧ Collided i addr before after := by
  obtain ⟨cause, asked, same⟩ := Node.asked_of_allocate failed
  rw [same fault rfl] at asked
  obtain ⟨addr, outer, j, inner, shape, -, trace, found, -, ledgers⟩ :=
    Store.allocateAlong_fault (Handle.path_nodup (some i)) asked
  rw [Handle.path, Layering.path_of_below_none bottom] at shape
  rcases List.append_eq_singleton_iff.1 shape.symm with ⟨-, here⟩ | ⟨-, nothing⟩
  · cases here
    obtain ⟨returned, -, held⟩ := Ledger.eq_of_enter_fault found
    refine ⟨addr, returned, held, ?_, fun k differs => ?_, trace⟩
    · rw [ledgers, if_pos (List.mem_singleton_self i)]
    · rw [ledgers, if_neg (mt List.mem_singleton.1 differs)]
  · cases nothing

theorem Collided.isLive (collided : Collided i addr before after) (other : Nat) :
    (after.ledger i).isLive other = (before.ledger i).isLive other := by
  rw [collided.entered, Bool.eq_iff_iff, Ledger.isLive_enter, or_iff_left_iff_imp]
  rintro ⟨rfl, -⟩
  exact collided.held

/-- Records have one layout, so that of a node in the books is not changed. -/
theorem Stands.collided (stands : Stands built (some i) before) (bottom : T.below i = none)
    (collided : Collided i addr before after) : Stands built (some i) after where
  owned := stands.owned
  recorded node member j on := by
    have recorded := stands.recorded node member j on
    rw [Handle.path, Layering.path_of_below_none bottom, List.mem_singleton] at on
    subst on
    rw [collided.entered, Ledger.live_enter, recorded, ite_self]
  apart := stands.apart

/-- The blocks of new nodes were not live before. -/
theorem Allocated.fresh {pending : List Int64}
    (allocated : Allocated demand owner pending built before after) :
    ∀ node ∈ built, ∀ i ∈ owner.path, (before.ledger i).live[node.addr]? = none := by
  induction allocated with
  | nil => exact List.forall_mem_nil _
  | @cons value pending node nodes before between after granted _ ih =>
    obtain ⟨entered, asked, rfl⟩ := Node.granted_of_allocate granted
    obtain ⟨-, -, accepted, ledgers⟩ := Store.allocateAlong_ok owner.path_nodup asked
    have positive := (recordLayout_proper (π := π) owner).2
    refine List.forall_mem_append.2 ⟨fun other later i on => ?_, List.forall_mem_singleton.2 ?_⟩
    · -- A ledger never loses a block by taking another one in.
      have still := ih other later i on
      rw [Store.ledger_emit, ledgers, if_pos on, Ledger.live_enter] at still
      by_cases same : node.addr = other.addr
      · rw [if_pos ⟨same, positive⟩] at still
        cases still
      · rwa [if_neg fun both => same both.1] at still
    · intro i on
      have free := (Ledger.enter_accepted_iff.1 (accepted i on)).resolve_left positive
      rwa [Ledger.isLive_eq, Option.isSome_eq_false_iff, Option.isNone_iff_eq_none] at free

/-- A call has got these nodes of ledger `i` and then a block that was live already, and has been
broken off. The nodes are released, front to back. The same addresses are live as before, the ledger
has counted the nodes and the block as handed out and the nodes as given back, and the books of all
other ledgers are what they were. -/
structure CalledOff (i : Fin T.size) (built : Tail T) (before after : Store T π) : Prop where
  live : ∀ addr, (after.ledger i).isLive addr = (before.ledger i).isLive addr
  allocations : (after.ledger i).allocations = (before.ledger i).allocations + built.length + 1
  releases : (after.ledger i).releases = (before.ledger i).releases + built.length
  others : ∀ j, j ≠ i → after.ledger j = before.ledger j
  events : after.events = before.events ++
    (built.reverse.map fun node => .nodeAllocated node.value node.addr) ++
    built.map fun node => .nodeReleased node.value node.addr

theorem Allocated.calledOff {pending : List Int64} (bottom : T.below i = none)
    (allocated : Allocated demand (some i) pending built before cut)
    (failed : Node.allocate demand (some i) value cut = (.error (.fault fault), after)) :
    CalledOff i built before (Tail.discard built after).2 := by
  obtain ⟨addr, -, collided⟩ := Node.collided_of_allocate bottom failed
  have handed := allocated.handedOut
  have on : i ∈ Handle.path (some i) := Layering.mem_path_self i
  have off : ∀ j, j ≠ i → j ∉ Handle.path (some i) := by
    intro j differs
    rwa [Handle.path, Layering.path_of_below_none bottom, List.mem_singleton]
  have stands := allocated.stands_alone.collided bottom collided
  have given := stands.discard.2
  refine ⟨fun other => ?_, ?_, ?_, fun j differs => ?_, ?_⟩
  · by_cases among : other ∈ built.map Node.addr
    · obtain ⟨node, member, rfl⟩ := List.mem_map.1 among
      rw [Ledger.isLive_eq, Ledger.isLive_eq, allocated.fresh node member i on,
        given.gone node member i (stands.owned node member ▸ on)]
    · have apart : ∀ node ∈ built, i ∈ node.owner.path → node.addr ≠ other :=
        fun node member _ same => among (List.mem_map.2 ⟨node, member, same⟩)
      rw [Ledger.isLive_eq, given.kept i other apart, ← Ledger.isLive_eq, collided.isLive,
        Ledger.isLive_eq, handed.live i on, if_neg among, Ledger.isLive_eq]
  · rw [given.allocations, collided.entered, Ledger.allocations_enter, handed.allocations i on]
  · rw [given.releases, collided.entered, Ledger.releases_enter, handed.releases i on,
      Tail.countP_path stands.owned on]
  · rw [given.ledger_eq fun node member => stands.owned node member ▸ off j differs,
      collided.others j differs, handed.others j (off j differs)]
  · rw [Tail.events_discard, Store.events, collided.trace, ← Store.events, allocated.events]

/-- A build that is handed a block that is live already has allocated some of its nodes and discards
them. -/
theorem Chain.exists_of_build_collided {values : List Int64}
    (ended : build demand owner values before =
      (.error (.fault (.liveBlockReturned addr)), after)) :
    ∃ front value taken built cut left, values = front ++ value :: Tail.values built ∧
      Allocated demand owner taken built before cut ∧
      Node.allocate demand owner value cut = (.error (.fault (.liveBlockReturned addr)), left) ∧
      after = (Tail.discard built left).2 := by
  obtain ⟨taken, rest, built, cut, shape, allocated, stopped⟩ :=
    Allocated.exists_split demand owner values.reverse before
  rw [build, shape, allocated.buildOnto, List.append_nil] at ended
  cases rest with
  | nil =>
    simp only [buildOnto] at ended
    cases ended
  | cons value rest =>
    obtain ⟨failure, left, failed⟩ := stopped value rfl
    refine ⟨rest.reverse, value, taken, built, cut, left, ?_, allocated, ?_⟩
    · rw [allocated.values, ← List.reverse_reverse values, shape, List.reverse_append,
        List.reverse_cons, List.append_assoc, List.singleton_append]
    · cases failure with
      | refused =>
        rw [buildOnto_of_refused _ _ _ failed] at ended
        rcases quiet : Tail.discard built (left.emit (.buildAbandoned built.length values.length))
          with ⟨_ | found, last⟩
        · rw [quiet] at ended
          cases ended
        · rw [quiet] at ended
          cases ended
          exact absurd (congrArg Prod.fst quiet) (Tail.discard_ne_liveBlockReturned _ _ _)
      | fault found =>
        simp only [buildOnto, failed] at ended
        cases ended
        exact ⟨failed, rfl⟩
      | aborted layout =>
        simp only [buildOnto, failed] at ended
        cases ended

/-- Such a block can only have been handed to the build, for no release is answered like that. -/
theorem Session.exists_of_chain_collided {session : Session T π} {target : String}
    {values : List Int64} (replied : (session.chain target demand owner values).1 =
      .failed (.fault (.liveBlockReturned addr))) :
    ∃ store, Chain.build demand owner values session.store =
        (.error (.fault (.liveBlockReturned addr)), store) ∧
      (session.chain target demand owner values).2 = { session with store } := by
  rw [chain] at replied ⊢
  rcases ended : Chain.build demand owner values session.store with ⟨failure | chain, store⟩
  · simp only [ended] at replied ⊢
    cases replied
    exact ⟨store, rfl, rfl⟩
  · simp only [ended, put, discard, conclude] at replied
    rcases quiet : Tail.discard (Session.nodes { session with store } target) store
      with ⟨_ | found, last⟩
    · rw [quiet] at replied
      cases replied
    · rw [quiet] at replied
      cases replied
      exact absurd (congrArg Prod.fst quiet) (Tail.discard_ne_liveBlockReturned _ _ _)

end Collisions

/-- How a push over ledger `i` ends. If it is refused, or handed a block that is live already,
everything is left as it was, and if it gets a node, popping undoes it. A push that insists ends the
run where it is refused. -/
inductive Machine.Pushed (i : Fin T.size) (name : String) (demand : Demand) (value : Int64)
    (before : Machine T π) : Reply T → Machine T π → Prop where
  | refused {after : Machine T π} (tried : demand = .attempt) (unchanged : before.Unchanged after)
      (ledgers : ∀ j, after.store.ledger j = before.store.ledger j) :
      Pushed i name demand value before (.failed .refused) after
  | aborted {after : Machine T π} (insisted : demand = .insist) :
      Pushed i name demand value before (.failed (.aborted (recordLayout π (some i)))) after
  | collided {after : Machine T π} {addr : Nat} (unchanged : before.Unchanged after)
      (off : CalledOff i [] before.store after.store) :
      Pushed i name demand value before (.failed (.fault (.liveBlockReturned addr))) after
  | done {after last : Machine T π}
      (popped : after.perform (.popFront name) = .ok (.answer (.value value), last))
      (unchanged : before.Unchanged last) (back : TakenBack (some i) 1 before.store last.store) :
      Pushed i name demand value before (.answer .done) after

namespace Represents

variable {machine after : Machine T π} {session : Session T π} {name : String} {demand : Demand}
  {owner : Handle T} {value : Int64} {nodes : Tail T} {store : Store T π}

theorem pushFront_failed (represents : Represents 0 machine session)
    (found : machine.view name = .ok (some (.chain ⟨nodes, owner⟩))) {failure : Failure}
    (failed : Node.allocate demand owner value machine.store = (.error failure, store)) :
    ∃ after, machine.perform (.pushFront name demand value) = .ok (.failed failure, after) ∧
      ((Reply.failed failure : Reply T).isAbort = false →
        after.store = store ∧ machine.Unchanged after) := by
  have here := represents.found_register found
  have same : session.store = machine.store := represents.store.symm
  have expected : session.pushFront name demand value = (.failed failure,
      ⟨store, session.registers.put name (.chain ⟨nodes, owner⟩)⟩) := by
    simp only [Session.pushFront, here, Chain.pushFront, same, failed]
  have ended : ∃ result, machine.perform (.pushFront name demand value) = .ok result := by
    have failed' : Node.allocate demand owner value machine.depot.store = _ := failed
    simp only [Machine.perform, Machine.pushFront, represents.get?, here, Option.map_some,
      Register.holder, Depot.pushOnto_error failed', ok_bind]
    exact ⟨_, rfl⟩
  have outcome := (represents.pushFront_outcome (Or.inl trivial) name demand value).careful ended
  rw [expected] at outcome
  obtain ⟨⟨_, after⟩, performed, rfl, -⟩ := outcome.exists_ok
  refine ⟨after, performed, fun lasting => ?_⟩
  obtain ⟨_, performed', becomes⟩ := represents.performs_put outcome lasting fun _ _ => rfl
  obtain ⟨-, rfl⟩ := Prod.mk.inj (Except.ok.inj (performed.symm.trans performed'))
  exact ⟨becomes.store, represents.unchanged_of_becomes found becomes⟩

/-- A node that has been pushed is popped again. -/
theorem popFront_pushed (represents : Represents 0 machine session)
    (found : machine.view name = .ok (some (.chain ⟨nodes, owner⟩))) {node : Node T}
    (granted : Node.allocate demand owner value machine.store = (.ok node, store))
    (becomes : machine.Becomes name (some (.chain ⟨node :: nodes, owner⟩)) store after) :
    ∃ last, after.perform (.popFront name) = .ok (.answer (.value value), last) ∧
      machine.Unchanged last ∧ TakenBack owner 1 machine.store last.store := by
  have allocated : Allocated demand owner [value] [node] machine.store store :=
    .cons granted .nil
  have accepted : (node.free store).1 = none :=
    allocated.stands_alone.accepted List.mem_cons_self
  obtain ⟨session', represents'⟩ := becomes.represented
  rw [← becomes.store] at accepted
  obtain ⟨last, popped, becomes'⟩ := represents'.popFront_accepted becomes.view accepted
  rw [(Node.of_allocate granted).1] at popped
  refine ⟨last, popped, represents.unchanged_of_becomes found (becomes.trans becomes'), ?_⟩
  have given := GivenBack.of_free accepted
  rw [← becomes'.store, becomes.store] at given
  exact allocated.handedOut.takenBack given allocated.stands_alone.owned allocated.fresh

theorem pushed (represents : Represents 0 machine session) (bottom : T.below i = none)
    (found : machine.view name = .ok (some (.chain ⟨nodes, some i⟩)))
    (intact : ∀ addr, machine.perform (.pushFront name demand value) ≠ .error (.overwrite addr)) :
    ∃ reply after, machine.perform (.pushFront name demand value) = .ok (reply, after) ∧
      machine.Pushed i name demand value reply after := by
  rcases asked : Node.allocate demand (some i) value machine.store with ⟨failure | node, store⟩
  · obtain ⟨after, performed, kept⟩ := represents.pushFront_failed found asked
    refine ⟨_, after, performed, ?_⟩
    cases failure with
    | refused =>
      obtain ⟨turned, answered⟩ := Node.refused_of_allocate asked nofun
      obtain ⟨rfl, unchanged⟩ := kept rfl
      cases demand with
      | attempt => exact .refused rfl unchanged (Store.allocateAlong_refused turned).1
      | insist => cases answered
    | fault fault =>
      obtain ⟨addr, rfl, -⟩ := Node.collided_of_allocate bottom asked
      obtain ⟨rfl, unchanged⟩ := kept rfl
      exact .collided unchanged (Allocated.nil.calledOff bottom asked)
    | aborted layout =>
      obtain ⟨-, answered⟩ := Node.refused_of_allocate asked nofun
      cases demand with
      | attempt => cases answered
      | insist =>
        cases answered
        exact .aborted rfl
  · have outcome :=
      represents.pushFront_outcome (Or.inl trivial : Careful True _ _) name demand value
    obtain ⟨result, ended, -⟩ := outcome.exists_of_intact intact
    have here := represents.found_register found
    have same : session.store = machine.store := represents.store.symm
    have expected : session.pushFront name demand value = (.answer .done,
        ⟨store, session.registers.put name (.chain ⟨node :: nodes, some i⟩)⟩) := by
      simp only [Session.pushFront, here, Chain.pushFront, same, asked]
    obtain ⟨after, performed, becomes⟩ := represents.performs_put
      (expected ▸ outcome.careful ⟨result, ended⟩) rfl fun _ _ => rfl
    obtain ⟨last, popped, unchanged, back⟩ := represents.popFront_pushed found asked becomes
    exact ⟨_, after, performed, .done popped unchanged back⟩

/-- A push and a build, each over a ledger on the parent, whatever this parent answers, as long as
no record is written over another. A push that is refused, or handed a block that is live already,
leaves all lists and records as they were, and so does one whose node is popped again. A build that
is handed a block that is live already leaves them as they were too, and gives back the nodes that
it has got for the last of its values. -/
theorem pushFront_pushed_chain_calledOff (represents : Represents 0 machine session)
    (bottom : T.below i = none) :
    (∀ name nodes demand value, machine.view name = .ok (some (.chain ⟨nodes, some i⟩)) →
      (∀ addr, machine.perform (.pushFront name demand value) ≠ .error (.overwrite addr)) →
      ∃ reply after, machine.perform (.pushFront name demand value) = .ok (reply, after) ∧
        machine.Pushed i name demand value reply after) ∧
    ∀ target demand values,
      (∀ addr, machine.perform (.chain target demand (some i) values) ≠ .error (.overwrite addr)) →
      ∃ reply after, machine.perform (.chain target demand (some i) values) = .ok (reply, after) ∧
        ∀ addr, reply = .failed (.fault (.liveBlockReturned addr)) →
          ∃ front value built, values = front ++ value :: Tail.values built ∧
            (∀ node ∈ built, node.owner = some i) ∧ machine.Unchanged after ∧
            CalledOff i built machine.store after.store := by
  refine ⟨fun name nodes demand value found intact => represents.pushed bottom found intact, ?_⟩
  intro target demand values intact
  have outcome :=
    represents.chain_outcome (Or.inl trivial : Careful True _ _) target demand (some i) values
  obtain ⟨⟨_, after⟩, performed, rfl, stored, kept⟩ := outcome.exists_of_intact intact
  refine ⟨_, after, performed, fun addr replied => ?_⟩
  obtain ⟨store, ended, left⟩ := Session.exists_of_chain_collided replied
  obtain ⟨front, value, taken, built, cut, last, shape, allocated, failed, rfl⟩ :=
    Chain.exists_of_build_collided ended
  refine ⟨front, value, built, shape, allocated.stands_alone.owned, ?_, ?_⟩
  · have represents' := kept (by rw [replied]; rfl)
    refine represents.unchanged represents' fun name => ?_
    rw [represents.view_eq, represents'.view_eq, left]
    rfl
  · have before : machine.store = session.store := represents.store
    have later : after.store = _ := stored
    rw [later, left, before]
    exact allocated.calledOff bottom failed

/-- On the ledger below two others. The arena is moved back, so that it has room for two more nodes
in front of those of the list: one is pushed and popped, and a build is broken off at its third one.
With nothing left of the budget, a push is refused. -/
theorem pushFront_pushed_chain_calledOff_fork :
    let before : List (Op .fork Arena) := [.chain "list" .attempt (some (0 : Fin 3)) [1, 2],
      .chain "other" .insist (some (1 : Fin 3)) [3]]
    let nodes : Tail .fork := [⟨4120, 1, some (0 : Fin 3)⟩, ⟨4096, 2, some (0 : Fin 3)⟩]
    let start : Machine .fork Arena := Machine.opened (.opened (fun _ => none) (.ofCapacity 4096))
    (∃ given machine pushed popped cut front value built,
      Machine.performAll (before ++ [.configure (4048 : Nat)]) start = .ok (given, machine) ∧
      machine.view "list" = .ok (some (.chain ⟨nodes, some (0 : Fin 3)⟩)) ∧
      machine.perform (.pushFront "list" .attempt 4) = .ok (.answer .done, pushed) ∧
      pushed.perform (.popFront "list") = .ok (.answer (.value 4), popped) ∧
      machine.Unchanged popped ∧ TakenBack (some (0 : Fin 3)) 1 machine.store popped.store ∧
      machine.perform (.chain "list" .insist (some (0 : Fin 3)) [5, 6, 7, 8]) =
        .ok (.failed (.fault (.liveBlockReturned 4096)), cut) ∧
      [5, 6, 7, 8] = front ++ value :: Tail.values built ∧ machine.Unchanged cut ∧
      CalledOff (0 : Fin 3) built machine.store cut.store) ∧
    ∃ given machine refused,
      Machine.performAll (before ++ [.setBudget (0 : Fin 3) (some 0)]) start =
        .ok (given, machine) ∧
      machine.perform (.pushFront "list" .attempt 4) = .ok (.failed .refused, refused) ∧
      machine.Unchanged refused ∧
      ∀ j : Fin 3, refused.store.ledger j = machine.store.ledger j := by
  intro before nodes start
  have bottom : Layering.fork.below (0 : Fin 3) = none := rfl
  refine ⟨?_, ?_⟩
  · have lasting : start.answersAll (fun reply => reply.isAbort = false)
        (before ++ [.configure (4048 : Nat)]) = true := by decide +kernel
    obtain ⟨given, machine, reached, survived⟩ := Machine.exists_of_answersAll lasting
    have checked : (match Machine.performAll (before ++ [.configure (4048 : Nat)]) start with
        | .ok (_, machine) => decide (
            machine.view "list" = .ok (some (.chain ⟨nodes, some (0 : Fin 3)⟩)) ∧
            (machine.perform (.pushFront "list" .attempt 4)).map Prod.fst = .ok (.answer .done) ∧
            (machine.perform (.chain "list" .insist (some (0 : Fin 3)) [5, 6, 7, 8])).map Prod.fst =
              .ok (.failed (.fault (.liveBlockReturned 4096))))
        | .error _ => false) = true := by decide +kernel
    rw [reached] at checked
    obtain ⟨found, granted, broken⟩ := of_decide_eq_true checked
    obtain ⟨session, represents⟩ := Machine.exists_represents reached survived
    have intact : ∀ addr, machine.perform (.pushFront "list" .attempt 4) ≠
        .error (.overwrite addr) := by
      intro addr same
      rw [same] at granted
      cases granted
    have intact' : ∀ addr, machine.perform (.chain "list" .insist (some (0 : Fin 3)) [5, 6, 7, 8]) ≠
        .error (.overwrite addr) := by
      intro addr same
      rw [same] at broken
      cases broken
    obtain ⟨reply, pushed, performed, ends⟩ :=
      (represents.pushFront_pushed_chain_calledOff bottom).1 "list" nodes .attempt 4 found intact
    obtain ⟨reply', cut, performed', ends'⟩ :=
      (represents.pushFront_pushed_chain_calledOff bottom).2 "list" .insist [5, 6, 7, 8] intact'
    rw [performed] at granted
    rw [performed'] at broken
    obtain rfl : reply = .answer .done := Except.ok.inj granted
    obtain rfl : reply' = .failed (.fault (.liveBlockReturned 4096)) := Except.ok.inj broken
    obtain ⟨front, value, built, shape, -, unchanged', off⟩ := ends' 4096 rfl
    cases ends with
    | @done _ popped pop unchanged back =>
      exact ⟨given, machine, pushed, popped, cut, front, value, built, reached, found, performed,
        pop, unchanged, back, performed', shape, unchanged', off⟩
  · have lasting : start.answersAll (fun reply => reply.isAbort = false)
        (before ++ [.setBudget (0 : Fin 3) (some 0)]) = true := by decide +kernel
    obtain ⟨given, machine, reached, survived⟩ := Machine.exists_of_answersAll lasting
    have checked : (match
          Machine.performAll (before ++ [.setBudget (0 : Fin 3) (some 0)]) start with
        | .ok (_, machine) => decide (
            machine.view "list" = .ok (some (.chain ⟨nodes, some (0 : Fin 3)⟩)) ∧
            (machine.perform (.pushFront "list" .attempt 4)).map Prod.fst = .ok (.failed .refused))
        | .error _ => false) = true := by decide +kernel
    rw [reached] at checked
    obtain ⟨found, turned⟩ := of_decide_eq_true checked
    obtain ⟨session, represents⟩ := Machine.exists_represents reached survived
    have intact : ∀ addr, machine.perform (.pushFront "list" .attempt 4) ≠
        .error (.overwrite addr) := by
      intro addr same
      rw [same] at turned
      cases turned
    obtain ⟨reply, refused, performed, ends⟩ :=
      (represents.pushFront_pushed_chain_calledOff bottom).1 "list" nodes .attempt 4 found intact
    rw [performed] at turned
    obtain rfl : reply = .failed .refused := Except.ok.inj turned
    cases ends with
    | refused _ unchanged ledgers =>
      exact ⟨given, machine, refused, reached, performed, unchanged, ledgers⟩

end Represents

end ChainLedger
