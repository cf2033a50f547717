import ChainLedger.Proofs.Disposal

set_option autoImplicit false

namespace ChainLedger

variable {T : Layering} {π : Type}

def Reply.isNothing : Reply T → Bool
  | .answer .nothing => true
  | _ => false

/-- The answer that there is no node, or a failure. -/
def Reply.isLast : Reply T → Bool
  | .answer .nothing => true
  | .failed _ => true
  | _ => false

variable [Parent π]

namespace Machine

/-- Performs operations in order, up to the first whose reply is one to stop at. -/
def performUntil (stop : Reply T → Bool) :
    List (Op T π) → Machine T π → Except Hazard (List (Reply T) × Machine T π)
  | [], machine => .ok ([], machine)
  | op :: ops, machine => do
      let (reply, machine) ← machine.perform op
      if stop reply then
        return ([reply], machine)
      else
        let (replies, machine) ← performUntil stop ops machine
        return (reply :: replies, machine)

variable {stop : Reply T → Bool} {op : Op T π} {ops : List (Op T π)} {reply : Reply T}
  {replies : List (Reply T)} {machine between after : Machine T π}

theorem performUntil_stop (performed : machine.perform op = .ok (reply, after))
    (last : stop reply = true) :
    performUntil stop (op :: ops) machine = .ok ([reply], after) := by
  simp only [performUntil, performed, ok_bind, last, ↓reduceIte, pure_eq_ok]

theorem performUntil_go (performed : machine.perform op = .ok (reply, between))
    (further : stop reply = false)
    (rest : performUntil stop ops between = .ok (replies, after)) :
    performUntil stop (op :: ops) machine = .ok (reply :: replies, after) := by
  simp only [performUntil, performed, ok_bind, further, Bool.false_eq_true, ↓reduceIte, rest,
    pure_eq_ok]

end Machine

namespace Tail

/-- Nodes that are freed one after the other: those in front of the first whose release ends in a
fault, and this fault. -/
inductive Drains : Store T π → Tail T → Tail T → Option Fault → Prop where
  | empty {store : Store T π} : Drains store [] [] none
  | fault {store : Store T π} {node : Node T} {rest : Tail T} {fault : Fault}
      (failed : (node.free store).1 = some fault) : Drains store (node :: rest) [] (some fault)
  | go {store : Store T π} {node : Node T} {rest front : Tail T} {fault : Option Fault}
      (accepted : (node.free store).1 = none)
      (behind : Drains (node.free store).2 rest front fault) :
      Drains store (node :: rest) (node :: front) fault

/-- The nodes of a list in front of the only one whose release would end in a fault, with this
fault, or all of them if there is no such node. -/
inductive CutAtFault (store : Store T π) : Tail T → Tail T → Option Fault → Prop where
  | whole {nodes : Tail T} (accepted : ∀ node ∈ nodes, (node.free store).1 = none) :
      CutAtFault store nodes nodes none
  | cut {front back : Tail T} {bad : Node T} {fault : Fault}
      (failed : (bad.free store).1 = some fault)
      (accepted : ∀ node ∈ front ++ back, (node.free store).1 = none) :
      CutAtFault store (front ++ bad :: back) front (some fault)

variable {store : Store T π} {nodes front : Tail T} {fault : Option Fault}

theorem Drains.fault_discard (drains : Drains store nodes front fault) :
    (discard nodes store).1 = fault := by
  induction drains with
  | empty => rfl
  | fault failed => rw [discard_cons, failed, Option.some_or]
  | go accepted _ ih => rw [discard_cons, accepted, Option.none_or, ih]

/-- A list in which no more than one release would end in a fault is cut there. -/
theorem exists_cutAtFault (apart : (nodes.map Node.addr).Nodup)
    (few : ∀ first ∈ nodes, ∀ second ∈ nodes, (first.free store).1 ≠ none →
      (second.free store).1 ≠ none → first = second) :
    ∃ front fault, CutAtFault store nodes front fault := by
  by_cases accepted : ∀ node ∈ nodes, (node.free store).1 = none
  · exact ⟨nodes, none, .whole accepted⟩
  · push Not at accepted
    obtain ⟨bad, member, failed⟩ := accepted
    obtain ⟨fault, failed_in⟩ := Option.ne_none_iff_exists'.1 failed
    obtain ⟨front, back, rfl⟩ := List.append_of_mem member
    have once : bad ∉ front ++ back :=
      (List.nodup_cons.1 (List.nodup_middle.1 (List.Nodup.of_map _ apart))).1
    refine ⟨front, some fault, .cut failed_in fun node inside => ?_⟩
    by_contra other
    have listed := ((List.sublist_cons_self bad back).append_left front).subset inside
    exact once (few node listed bad member other failed ▸ inside)

/-- The fault at the cut is that of any node whose release would end in one. -/
theorem CutAtFault.fault_eq {bad : Node T} {found : Fault}
    (cut : CutAtFault store nodes front fault) (member : bad ∈ nodes)
    (failed : (bad.free store).1 = some found) : fault = some found := by
  cases cut with
  | whole accepted =>
    rw [accepted bad member] at failed
    cases failed
  | @cut _ back other _ failed' accepted =>
    by_cases same : bad = other
    · rw [← failed, same, failed']
    · have inside : bad ∈ front ++ back := by
        rw [List.mem_append, List.mem_cons, or_iff_right same] at member
        exact List.mem_append.2 member
      rw [accepted bad inside] at failed
      cases failed

theorem drains_whole (apart : (nodes.map Node.addr).Nodup)
    (accepted : ∀ node ∈ nodes, (node.free store).1 = none) : Drains store nodes nodes none := by
  induction nodes generalizing store with
  | nil => exact .empty
  | cons node rest ih =>
    obtain ⟨here, others⟩ := List.forall_mem_cons.1 accepted
    refine .go here (ih (List.nodup_cons.1 apart).2 fun other member => ?_)
    rw [free_behind apart store other member]
    exact others other member

theorem drains_cut {back : Tail T} {bad : Node T} {fault : Fault}
    (apart : ((front ++ bad :: back).map Node.addr).Nodup)
    (failed : (bad.free store).1 = some fault)
    (accepted : ∀ node ∈ front ++ back, (node.free store).1 = none) :
    Drains store (front ++ bad :: back) front (some fault) := by
  induction front generalizing store with
  | nil => exact .fault failed
  | cons node rest ih =>
    obtain ⟨here, others⟩ := List.forall_mem_cons.1 accepted
    have behind := free_behind apart store
    refine .go here (ih (List.nodup_cons.1 apart).2 ?_ fun other member => ?_)
    · rw [behind bad (List.mem_append_right _ List.mem_cons_self)]
      exact failed
    · have listed := ((List.sublist_cons_self bad back).append_left rest).subset member
      rw [behind other listed]
      exact others other member

/-- Nodes at addresses of their own are drained as each of them would be freed first, and on the way
out of a fault there is no second one. -/
theorem CutAtFault.drains (cut : CutAtFault store nodes front fault)
    (apart : (nodes.map Node.addr).Nodup) :
    Drains store nodes front fault ∧
      unwind nodes store = some (fault, (discard nodes store).2) := by
  cases cut with
  | whole accepted =>
    exact ⟨drains_whole apart accepted, unwind_of_quiet (givenBack_discard apart accepted).1⟩
  | cut failed accepted =>
    exact ⟨drains_cut apart failed accepted,
      (givenBack_discard_of_bad apart failed accepted).2.1⟩

theorem releaseHead_accepted {node : Node T} (rest : Tail T)
    (accepted : (node.free store).1 = none) :
    releaseHead node rest store = (.ok rest, (node.free store).2) := by
  rcases freed : node.free store with ⟨_ | fault, after⟩
  · rw [releaseHead, freed]
  · rw [freed] at accepted
    cases accepted

theorem releaseHead_failed {node : Node T} {fault : Fault} (rest : Tail T)
    (failed : (node.free store).1 = some fault) :
    releaseHead node rest store = (.error fault, (discard (node :: rest) store).2) := by
  rcases freed : node.free store with ⟨_ | found, after⟩
  · rw [freed] at failed
    cases failed
  · rw [freed] at failed
    cases failed
    rw [releaseHead, freed, discard_cons, freed]

end Tail

theorem Session.dispose_vacant {session : Session T π} {name : String} (nodes : Tail T)
    (vacant : session.registers.get? name = none) :
    session.dispose (some name) nodes =
      (none, { session with registers := session.registers.put name (.loose nodes) }) :=
  session.put_vacant vacant (.loose nodes)

namespace Represents

variable {machine : Machine T π} {session : Session T π} {name : String} {owner : Handle T}

theorem popFront_empty (represents : Represents 0 machine session)
    (found : machine.view name = .ok (some (.chain ⟨[], owner⟩))) :
    ∃ after, machine.perform (.popFront name) = .ok (.answer .nothing, after) ∧
      machine.Becomes name (some (.chain ⟨[], owner⟩)) machine.store after := by
  have store : machine.store = session.store := represents.store
  have expected : session.popFront name = (.answer .nothing,
      ⟨session.store, session.registers.put name (.chain ⟨[], owner⟩)⟩) := by
    simp only [Session.popFront, represents.found_register found, Chain.popFront, Answer.ofValue?]
  rw [store]
  exact represents.performs_put (expected ▸ represents.popFront_outcome name) rfl fun _ _ => rfl

theorem popFront_accepted (represents : Represents 0 machine session) {node : Node T}
    {rest : Tail T} (found : machine.view name = .ok (some (.chain ⟨node :: rest, owner⟩)))
    (accepted : (node.free machine.store).1 = none) :
    ∃ after, machine.perform (.popFront name) = .ok (.answer (.value node.value), after) ∧
      machine.Becomes name (some (.chain ⟨rest, owner⟩)) (node.free machine.store).2 after := by
  have store : machine.store = session.store := represents.store
  rw [store] at accepted ⊢
  have expected : session.popFront name = (.answer (.value node.value),
      ⟨(node.free session.store).2, session.registers.put name (.chain ⟨rest, owner⟩)⟩) := by
    simp only [Session.popFront, represents.found_register found, Chain.popFront,
      Tail.releaseHead_accepted rest accepted, Answer.ofValue?]
  exact represents.performs_put (expected ▸ represents.popFront_outcome name) rfl fun _ _ => rfl

theorem popFront_failed (represents : Represents 0 machine session) {node : Node T}
    {rest : Tail T} {fault : Fault}
    (found : machine.view name = .ok (some (.chain ⟨node :: rest, owner⟩)))
    (failed : (node.free machine.store).1 = some fault) :
    ∃ after, machine.perform (.popFront name) = .ok (.failed (.fault fault), after) ∧
      machine.Becomes name (some (.chain ⟨[], owner⟩))
        (Tail.discard (node :: rest) machine.store).2 after := by
  have store : machine.store = session.store := represents.store
  rw [store] at failed ⊢
  have expected : session.popFront name = (.failed (.fault fault),
      ⟨(Tail.discard (node :: rest) session.store).2,
        session.registers.put name (.chain ⟨[], owner⟩)⟩) := by
    simp only [Session.popFront, represents.found_register found, Chain.popFront,
      Tail.releaseHead_failed rest failed]
  exact represents.performs_put (expected ▸ represents.popFront_outcome name) rfl fun _ _ => rfl

theorem intoHead_chain (represents : Represents 0 machine session) {nodes : Tail T}
    (found : machine.view name = .ok (some (.chain ⟨nodes, owner⟩))) :
    ∃ after, machine.perform (.intoHead name (some name)) = .ok (.answer (.ofTail nodes), after) ∧
      machine.Becomes name (some (.loose nodes)) machine.store after := by
  have store : machine.store = session.store := represents.store
  have expected : session.intoHead name (some name) = (.answer (.ofTail nodes),
      ⟨session.store, (session.registers.erase name).put name (.loose nodes)⟩) := by
    have vacant : (session.registers.erase name).get? name = none := by
      rw [Directory.get?_erase, if_pos rfl]
    simp only [Session.intoHead, represents.found_register found, Session.take, Session.nodes,
      Registers.nodes, Register.nodes]
    rw [Session.dispose_vacant nodes vacant]
    rfl
  rw [store]
  exact represents.performs_put (expected ▸ represents.intoHead_outcome name (some name)) rfl
    fun other differs => by rw [Directory.get?_erase, if_neg differs.symm]

theorem release_accepted (represents : Represents 0 machine session) {node : Node T}
    {rest : Tail T} (found : machine.view name = .ok (some (.loose (node :: rest))))
    (accepted : (node.free machine.store).1 = none) :
    ∃ after, machine.perform (.release name (some name)) = .ok (.answer (.ofTail rest), after) ∧
      machine.Becomes name (some (.loose rest)) (node.free machine.store).2 after := by
  have store : machine.store = session.store := represents.store
  rw [store] at accepted ⊢
  have expected : session.release name (some name) = (.answer (.ofTail rest),
      ⟨(node.free session.store).2, (session.registers.erase name).put name (.loose rest)⟩) := by
    have vacant : (session.registers.erase name).get? name = none := by
      rw [Directory.get?_erase, if_pos rfl]
    simp only [Session.release, represents.found_register found, Session.take, Session.nodes,
      Registers.nodes, Register.nodes, Tail.releaseHead_accepted rest accepted]
    rw [Session.dispose_vacant rest vacant]
    rfl
  exact represents.performs_put (expected ▸ represents.release_outcome name (some name)) rfl
    fun other differs => by rw [Directory.get?_erase, if_neg differs.symm]

theorem release_failed (represents : Represents 0 machine session) {node : Node T}
    {rest : Tail T} {fault : Fault} (found : machine.view name = .ok (some (.loose (node :: rest))))
    (failed : (node.free machine.store).1 = some fault) :
    ∃ after, machine.perform (.release name (some name)) = .ok (.failed (.fault fault), after) ∧
      machine.Becomes name none (Tail.discard (node :: rest) machine.store).2 after := by
  have store : machine.store = session.store := represents.store
  rw [store] at failed ⊢
  have expected : session.release name (some name) = (.failed (.fault fault),
      ⟨(Tail.discard (node :: rest) session.store).2, session.registers.erase name⟩) := by
    simp only [Session.release, represents.found_register found, Session.take, Session.nodes,
      Registers.nodes, Register.nodes, Tail.releaseHead_failed rest failed]
  exact represents.performs_erase (expected ▸ represents.release_outcome name (some name)) rfl

variable {store : Store T π} {nodes front : Tail T} {fault : Option Fault}

/-- Popping until there is no node left. A pop that ends in a fault leaves an empty chain, so the
one after it finds no node. -/
theorem performUntil_popFront (drains : Tail.Drains store nodes front fault)
    (represents : Represents 0 machine session) (same : machine.store = store)
    (found : machine.view name = .ok (some (.chain ⟨nodes, owner⟩))) {count : Nat}
    (enough : nodes.length < count) :
    ∃ after, Machine.performUntil Reply.isNothing (List.replicate count (.popFront name)) machine =
        .ok (front.map (fun node => .answer (.value node.value)) ++
          fault.toList.map (fun fault => .failed (.fault fault)) ++ [.answer .nothing], after) ∧
      machine.Becomes name (some (.chain ⟨[], owner⟩)) (Tail.discard nodes store).2 after := by
  induction drains generalizing machine session count with
  | empty =>
    obtain ⟨more, rfl⟩ := Nat.exists_eq_add_of_lt enough
    obtain ⟨after, performed, becomes⟩ := represents.popFront_empty found
    rw [same] at becomes
    exact ⟨after, Machine.performUntil_stop performed rfl, becomes⟩
  | @fault _ node rest fault failed =>
    obtain ⟨more, rfl⟩ : ∃ more, count = more + 1 + 1 := ⟨count - 2, by simp at enough; omega⟩
    obtain ⟨between, performed, becomes⟩ := represents.popFront_failed found (same ▸ failed)
    rw [same] at becomes
    obtain ⟨_, kept⟩ := becomes.represented
    -- The fault has taken all nodes along, so one more pop finds none.
    obtain ⟨after, again, empty⟩ := kept.popFront_empty becomes.view
    rw [becomes.store] at empty
    exact ⟨after, Machine.performUntil_go performed rfl (Machine.performUntil_stop again rfl),
      becomes.trans empty⟩
  | @go _ node rest front fault accepted behind ih =>
    obtain ⟨more, rfl⟩ : ∃ more, count = more + 1 := ⟨count - 1, by omega⟩
    obtain ⟨between, performed, becomes⟩ := represents.popFront_accepted found (same ▸ accepted)
    rw [same] at becomes
    obtain ⟨_, kept⟩ := becomes.represented
    obtain ⟨after, looped, last⟩ :=
      ih kept becomes.store becomes.view (Nat.lt_of_succ_lt_succ enough)
    rw [Tail.discard_cons]
    exact ⟨after, Machine.performUntil_go performed rfl looped, becomes.trans last⟩

/-- Releasing loose nodes, once they have been handed out, until there is none or a release ends in
a fault. -/
theorem performUntil_release (drains : Tail.Drains store nodes front fault)
    {between : Machine T π} {op : Op T π}
    (performed : machine.perform op = .ok (.answer (.ofTail nodes), between))
    (becomes : machine.Becomes name (some (.loose nodes)) store between) {count : Nat}
    (enough : nodes.length ≤ count) :
    ∃ left after, Machine.performUntil Reply.isLast
        (op :: List.replicate count (.release name (some name))) machine =
        .ok ((nodes.tails.take (front.length + 1)).map (fun tail => .answer (.ofTail tail)) ++
          fault.toList.map (fun fault => .failed (.fault fault)), after) ∧
      machine.Becomes name left (Tail.discard nodes store).2 after := by
  induction drains generalizing machine between op count with
  | empty => exact ⟨_, between, Machine.performUntil_stop performed rfl, becomes⟩
  | @fault _ node rest fault failed =>
    obtain ⟨more, rfl⟩ : ∃ more, count = more + 1 := ⟨count - 1, by simp at enough; omega⟩
    obtain ⟨_, kept⟩ := becomes.represented
    obtain ⟨after, ended, gone⟩ := kept.release_failed becomes.view (becomes.store ▸ failed)
    rw [becomes.store] at gone
    exact ⟨none, after, Machine.performUntil_go performed rfl (Machine.performUntil_stop ended rfl),
      becomes.trans gone⟩
  | @go _ node rest front fault accepted behind ih =>
    obtain ⟨more, rfl⟩ : ∃ more, count = more + 1 := ⟨count - 1, by simp at enough; omega⟩
    obtain ⟨_, kept⟩ := becomes.represented
    obtain ⟨next, released, shorter⟩ :=
      kept.release_accepted becomes.view (becomes.store ▸ accepted)
    rw [becomes.store] at shorter
    obtain ⟨left, after, looped, last⟩ := ih released shorter (Nat.le_of_succ_le_succ enough)
    rw [Tail.discard_cons]
    exact ⟨left, after, Machine.performUntil_go performed rfl looped, becomes.trans last⟩

/-- The ways of draining a chain. Whether it is dropped, popped until no node is left, or released
node by node, up to a fault, the same events are written, the same fault comes out, and the same
books are left. The values that are popped are those of the nodes in front of the fault, and the
chain is empty afterwards. -/
theorem drains_alike (represents : Represents 0 machine session) {chain : Chain T}
    (found : machine.view name = .ok (some (.chain chain)))
    (few : ∀ first ∈ chain.nodes, ∀ second ∈ chain.nodes, (first.free machine.store).1 ≠ none →
      (second.free machine.store).1 ≠ none → first = second)
    {count : Nat} (enough : chain.length < count) :
    ∃ front fault left dropped popped released,
      Tail.CutAtFault machine.store chain.nodes front fault ∧
      machine.perform (.drop name) = .ok (Reply.orFault (.answer (.truth true)) fault, dropped) ∧
      Machine.performUntil Reply.isNothing (List.replicate count (.popFront name)) machine =
        .ok (front.map (fun node => .answer (.value node.value)) ++
          fault.toList.map (fun fault => .failed (.fault fault)) ++ [.answer .nothing], popped) ∧
      Machine.performUntil Reply.isLast
        (.intoHead name (some name) :: List.replicate count (.release name (some name))) machine =
        .ok ((chain.nodes.tails.take (front.length + 1)).map (fun tail => .answer (.ofTail tail)) ++
          fault.toList.map (fun fault => .failed (.fault fault)), released) ∧
      dropped.store = left ∧ popped.store = left ∧ released.store = left ∧
      left.events = machine.store.events ++
        chain.nodes.map (fun node => .nodeReleased node.value node.addr) ∧
      chain.nodes.unwind machine.store = some (fault, left) ∧
      popped.view name = .ok (some (.chain (.empty chain.owner))) := by
  obtain ⟨nodes, owner⟩ := chain
  have apart := represents.addrs_nodup found
  obtain ⟨front, fault, cut⟩ := Tail.exists_cutAtFault apart few
  obtain ⟨drains, unwound⟩ := cut.drains apart
  obtain ⟨dropped, performed, gone⟩ := represents.perform_drop found
  obtain ⟨popped, pops, empty⟩ := represents.performUntil_popFront drains rfl found enough
  obtain ⟨between, handed, loose⟩ := represents.intoHead_chain found
  obtain ⟨_, released, releases, last⟩ :=
    performUntil_release drains handed loose (Nat.le_of_lt enough)
  have ends : (Tail.discard nodes machine.store).1 = fault := drains.fault_discard
  exact ⟨front, fault, (Tail.discard nodes machine.store).2, dropped, popped, released, cut,
    ends ▸ performed, pops, releases, gone.store, empty.store, last.store,
    Tail.events_discard nodes machine.store, unwound, empty.view⟩

/-- A chain of nodes of two ledgers, the second of which is no longer live in the ledger below. -/
theorem drains_alike_fork :
    let before : List (Op .fork Arena) := [.chain "list" .attempt (some (1 : Fin 3)) [1],
      .chain "more" .insist (some (2 : Fin 3)) [2, 3, 4], .link "list" 0 (some "more") none,
      .deallocate (0 : Fin 3) 4168 ⟨24, 8⟩]
    let bad : Node .fork := ⟨4168, 2, some (2 : Fin 3)⟩
    let nodes : Tail .fork := [⟨4096, 1, some (1 : Fin 3)⟩, bad, ⟨4144, 3, some (2 : Fin 3)⟩,
      ⟨4120, 4, some (2 : Fin 3)⟩]
    let start : Machine .fork Arena := Machine.opened (.opened (fun _ => none) (.ofCapacity 4096))
    ∃ given machine dropped popped released replies replies',
      Machine.performAll before start = .ok (given, machine) ∧
      machine.view "list" = .ok (some (.chain ⟨nodes, some (1 : Fin 3)⟩)) ∧
      (bad.free machine.store).1 = some (.notLive 4168) ∧
      machine.perform (.drop "list") = .ok (.failed (.fault (.notLive 4168)), dropped) ∧
      Machine.performUntil Reply.isNothing (List.replicate 5 (.popFront "list")) machine =
        .ok (replies, popped) ∧
      Machine.performUntil Reply.isLast
        (.intoHead "list" (some "list") :: List.replicate 5 (.release "list" (some "list")))
        machine = .ok (replies', released) ∧
      popped.store = dropped.store ∧ released.store = dropped.store := by
  intro before bad nodes start
  have lasting : start.answersAll (fun reply => reply.isAbort = false) before = true := by
    decide +kernel
  obtain ⟨given, machine, reached, survived⟩ := Machine.exists_of_answersAll lasting
  have checked : (match Machine.performAll before start with
      | .ok (_, machine) => decide (
          machine.view "list" = .ok (some (.chain ⟨nodes, some (1 : Fin 3)⟩)) ∧
          (bad.free machine.store).1 = some (.notLive 4168) ∧
          ∀ first ∈ nodes, ∀ second ∈ nodes, (first.free machine.store).1 ≠ none →
            (second.free machine.store).1 ≠ none → first = second)
      | .error _ => false) = true := by decide +kernel
  rw [reached] at checked
  obtain ⟨found, failed, few⟩ := of_decide_eq_true checked
  obtain ⟨session, represents⟩ := Machine.exists_represents reached survived
  obtain ⟨front, fault, left, dropped, popped, released, cut, drop, pops, releases, gone, empty,
    last, _⟩ := represents.drains_alike found few (by decide : 4 < 5)
  obtain rfl := cut.fault_eq (List.mem_cons_of_mem _ List.mem_cons_self) failed
  exact ⟨given, machine, dropped, popped, released, _, _, reached, found, failed, drop, pops,
    releases, empty.trans gone.symm, last.trans gone.symm⟩

end Represents

end ChainLedger
