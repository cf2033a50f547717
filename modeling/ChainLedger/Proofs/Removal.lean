import ChainLedger.Proofs.Draining

set_option autoImplicit false

namespace ChainLedger

variable {T : Layering} {π : Type} [Parent π]

/-- As long as there are nodes a walk goes on from one to the next. -/
theorem Zipper.walk_advance {front behind : Tail T} {node : Node T} (zipper : Zipper T)
    (ahead : zipper.focus :: zipper.rest = front ++ node :: behind) (answers : List (Answer T))
    (aside : List (String × Tail T)) (session : Session T π) (steps : List WalkStep) :
    zipper.walk answers aside session (List.replicate front.length .advance ++ steps) =
      walk (List.replicate front.length (.truth true) ++ answers) aside
        ⟨front.reverse ++ zipper.passed, node, behind⟩ session steps := by
  induction front generalizing zipper answers with
  | nil =>
    obtain ⟨passed, focus, rest⟩ := zipper
    cases ahead
    rfl
  | cons first front ih =>
    obtain ⟨passed, focus, rest⟩ := zipper
    obtain ⟨next, others, shape⟩ := List.exists_cons_of_ne_nil
      (List.append_ne_nil_of_right_ne_nil front (List.cons_ne_nil node behind))
    rw [List.cons_append, shape, List.cons.injEq] at ahead
    obtain ⟨rfl, rfl⟩ := ahead
    have later := ih ⟨focus :: passed, next, others⟩ shape.symm (.truth true :: answers)
    simp only [List.length_cons, List.replicate_succ, List.cons_append, walk, advance?]
    rw [later, List.append_cons, ← List.replicate_succ', List.replicate_succ, List.reverse_cons,
      List.append_assoc]
    rfl

theorem Tail.eq_of_getElem? {tail : Tail T} {position : Nat} {node : Node T}
    (here : tail[position]? = some node) :
    tail = tail.take position ++ node :: tail.drop (position + 1) ∧
      (tail.take position).length = position ∧
      tail.drop position = node :: tail.drop (position + 1) := by
  obtain ⟨inside, rfl⟩ := List.getElem?_eq_some_iff.1 here
  have back := List.drop_eq_getElem_cons inside
  refine ⟨?_, List.length_take_of_le (Nat.le_of_lt inside), back⟩
  rw [← back, List.take_append_drop]

theorem Session.walk_release {session : Session T π} {name : String} {register : Register T}
    {position : Nat} {node : Node T} (found : session.registers.get? name = some register)
    (here : register.nodes[position]? = some node) :
    session.walk name (List.replicate position .advance ++ [.release]) =
      match Tail.releaseHead node (register.nodes.drop (position + 1)) session.store with
      | (.ok rest, store) =>
          (.answers (List.replicate position (.truth true) ++ [.value node.value]),
            ⟨store, (session.registers.erase name).put name
              (register.withNodes (register.nodes.take position ++ rest))⟩)
      | (.error fault, store) =>
          (.failed (.fault fault),
            ⟨store, (session.registers.erase name).put name
              (register.withNodes (register.nodes.take position))⟩) := by
  obtain ⟨shape, count, -⟩ := Tail.eq_of_getElem? here
  obtain ⟨first, rest, start⟩ := List.exists_cons_of_ne_nil
    (List.append_ne_nil_of_right_ne_nil (register.nodes.take position)
      (List.cons_ne_nil node (register.nodes.drop (position + 1))))
  have place : Zipper.ofTail? register.nodes = some ⟨[], first, rest⟩ := by
    rw [shape, start]
    rfl
  have walked := Zipper.walk_advance ⟨[], first, rest⟩ start.symm [] []
    ⟨session.store, session.registers.erase name⟩ [.release]
  rw [count] at walked
  simp only [walk, found, place, walked, Zipper.walk, Zipper.release, List.append_nil,
    List.reverse_reverse]
  rcases Tail.releaseHead node (register.nodes.drop (position + 1)) session.store with
    ⟨fault | left, store⟩
  · rfl
  · simp only [List.reverse_cons, List.reverse_replicate]
    rfl

/-- What is done to the nodes behind does not concern those in front. -/
theorem GivenBack.live_of_front {front back : Tail T} {bad : Node T} {store after : Store T π}
    (given : GivenBack back (bad.free store).2 after)
    (apart : ((front ++ bad :: back).map Node.addr).Nodup) :
    ∀ other ∈ front, ∀ i,
      (after.ledger i).live[other.addr]? = (store.ledger i).live[other.addr]? := by
  intro other member i
  rw [List.map_append, List.nodup_append] at apart
  have beside : ∀ later ∈ bad :: back, later.addr ≠ other.addr := by
    intro later behind same
    exact apart.2.2 _ (List.mem_map_of_mem member) _ (List.mem_map_of_mem behind) same.symm
  rw [given.kept i other.addr fun later behind _ => beside later (List.mem_cons_of_mem _ behind)]
  exact bad.live_free_of_ne store i (beside bad List.mem_cons_self)

/-- The node at a position has been taken out of the list under a name and given back, and no other
node has been touched. -/
structure Machine.Removes (name : String) (register : Register T) (position : Nat) (node : Node T)
    (before after : Machine T π) : Prop where
  becomes : before.Becomes name (some (register.withNodes (register.nodes.eraseIdx position)))
    after.store after
  events : after.store.events = before.store.events ++ [.nodeReleased node.value node.addr]
  given : GivenBack [node] before.store after.store

/-- The release of the node at a position of the list under a name has ended in a fault. The list
ends in front of the node, and the nodes that were behind it have been given back. -/
structure Machine.BreaksOff (name : String) (register : Register T) (position : Nat)
    (node : Node T) (fault : Fault) (before after : Machine T π) : Prop where
  becomes : before.Becomes name (some (register.withNodes (register.nodes.take position)))
    after.store after
  events : after.store.events = before.store.events ++
    (register.nodes.drop position).map fun node => .nodeReleased node.value node.addr
  rejected : ∃ passed i behind, node.owner.path = passed ++ i :: behind ∧
    RejectedAt passed i node fault before.store (node.free before.store).2
  given : GivenBack (register.nodes.drop (position + 1)) (node.free before.store).2 after.store
  unwound : Tail.unwind (register.nodes.drop position) before.store =
    some (some fault, after.store)
  untouched : ∀ other ∈ register.nodes.take position, ∀ i,
    (after.store.ledger i).live[other.addr]? = (before.store.ledger i).live[other.addr]?

namespace Represents

variable {machine : Machine T π} {session : Session T π} {name : String} {register : Register T}

/-- What comes of releasing the node at any position of a list. If the release is accepted, its
value is the answer, and the list is without this node. If it ends in a fault, and no release of a
node behind it does, the list is what was in front of the node. -/
theorem walk_release_removes_or_breaksOff (represents : Represents 0 machine session)
    (found : machine.view name = .ok (some register)) {position : Nat} {node : Node T}
    (here : register.nodes[position]? = some node) :
    ((node.free machine.store).1 = none → ∃ after,
      machine.perform (.walk name (List.replicate position .advance ++ [.release])) =
        .ok (.answers (List.replicate position (.truth true) ++ [.value node.value]), after) ∧
      machine.Removes name register position node after) ∧
    ∀ fault, (node.free machine.store).1 = some fault →
      (∀ later ∈ register.nodes.drop (position + 1), (later.free machine.store).1 = none) →
      ∃ after,
        machine.perform (.walk name (List.replicate position .advance ++ [.release])) =
          .ok (.failed (.fault fault), after) ∧
        machine.BreaksOff name register position node fault after := by
  have apart := represents.addrs_nodup found
  obtain ⟨shape, -, back⟩ := Tail.eq_of_getElem? here
  have store : machine.store = session.store := represents.store
  have walked := Session.walk_release (represents.found_register found) here
  rw [← store] at walked
  have vacant : ∀ other, other ≠ name →
      (session.registers.erase name).get? other = session.registers.get? other := by
    intro other differs
    rw [Directory.get?_erase, if_neg differs.symm]
  refine ⟨fun accepted => ?_, fun fault failed calm => ?_⟩
  · rw [Tail.releaseHead_accepted _ accepted] at walked
    obtain ⟨after, performed, becomes⟩ :=
      represents.performs_put (walked ▸ represents.walk_outcome name _) rfl vacant
    have left := becomes.store
    rw [← List.eraseIdx_eq_take_drop_succ, ← left] at becomes
    refine ⟨after, performed, becomes, ?_, ?_⟩
    · rw [left, Node.events_free]
    · rw [left]
      exact .of_free accepted
  · rw [Tail.releaseHead_failed _ failed, ← back] at walked
    obtain ⟨after, performed, becomes⟩ :=
      represents.performs_put (walked ▸ represents.walk_outcome name _) rfl vacant
    have left := becomes.store
    have apart_back : ((([] : Tail T) ++ node :: register.nodes.drop (position + 1)).map
        Node.addr).Nodup :=
      back ▸ apart.sublist ((List.drop_sublist position register.nodes).map Node.addr)
    obtain ⟨-, unwound, given⟩ := Tail.givenBack_discard_of_bad apart_back failed calm
    simp only [List.nil_append, ← back, ← left] at unwound given becomes
    refine ⟨after, performed, becomes, ?_, Node.rejectedAt_free failed, given, unwound, ?_⟩
    · rw [left, Tail.events_discard]
    · exact given.live_of_front (shape ▸ apart)

/-- In a list of nodes of two ledgers, one of which has been given back to the ledger below behind
the list's back: the second node is taken out, and at the third the list breaks off. -/
theorem walk_release_removes_or_breaksOff_fork :
    let before : List (Op .fork Arena) := [.chain "list" .attempt (some (1 : Fin 3)) [1, 2],
      .chain "more" .insist (some (2 : Fin 3)) [3, 4], .link "list" 1 (some "more") none,
      .deallocate (0 : Fin 3) 4168 ⟨24, 8⟩]
    let node : Node .fork := ⟨4096, 2, some (1 : Fin 3)⟩
    let bad : Node .fork := ⟨4168, 3, some (2 : Fin 3)⟩
    let register : Register .fork := .chain ⟨[⟨4120, 1, some (1 : Fin 3)⟩, node, bad,
      ⟨4144, 4, some (2 : Fin 3)⟩], some (1 : Fin 3)⟩
    let start : Machine .fork Arena := Machine.opened (.opened (fun _ => none) (.ofCapacity 4096))
    ∃ given machine taken cut, Machine.performAll before start = .ok (given, machine) ∧
      machine.view "list" = .ok (some register) ∧
      machine.perform (.walk "list" [.advance, .release]) =
        .ok (.answers [.truth true, .value 2], taken) ∧
      machine.Removes "list" register 1 node taken ∧
      machine.perform (.walk "list" [.advance, .advance, .release]) =
        .ok (.failed (.fault (.notLive 4168)), cut) ∧
      machine.BreaksOff "list" register 2 bad (.notLive 4168) cut := by
  intro before node bad register start
  have lasting : start.answersAll (fun reply => reply.isAbort = false) before = true := by
    decide +kernel
  obtain ⟨given, machine, reached, survived⟩ := Machine.exists_of_answersAll lasting
  have checked : (match Machine.performAll before start with
      | .ok (_, machine) => decide (machine.view "list" = .ok (some register) ∧
          (node.free machine.store).1 = none ∧ (bad.free machine.store).1 = some (.notLive 4168) ∧
          ∀ later ∈ register.nodes.drop 3, (later.free machine.store).1 = none)
      | .error _ => false) = true := by decide +kernel
  rw [reached] at checked
  obtain ⟨found, accepted, failed, calm⟩ := of_decide_eq_true checked
  obtain ⟨session, represents⟩ := Machine.exists_represents reached survived
  have second : register.nodes[1]? = some node := rfl
  have third : register.nodes[2]? = some bad := rfl
  obtain ⟨taken, released, removes⟩ :=
    (represents.walk_release_removes_or_breaksOff found second).1 accepted
  obtain ⟨cut, stopped, breaks⟩ :=
    (represents.walk_release_removes_or_breaksOff found third).2 _ failed calm
  exact ⟨given, machine, taken, cut, reached, found, released, removes, stopped, breaks⟩

end Represents

end ChainLedger
