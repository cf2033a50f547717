import ChainLedger.Proofs.Refusal
import ChainLedger.Proofs.Trail

set_option autoImplicit false

namespace ChainLedger

variable {T : Layering} {π : Type} [Parent π]

section Operations

/-- The same operation, which only tries to get the nodes it asks for. -/
def Op.tried : Op T π → Op T π
  | .node target _ owner value => .node target .attempt owner value
  | .chain target _ owner wanted => .chain target .attempt owner wanted
  | .pushFront name _ value => .pushFront name .attempt value
  | op => op

/-- An operation asks for nodes and insists on them. -/
def Op.Insists : Op T π → Prop
  | .node _ demand _ _ => demand = .insist
  | .chain _ demand _ _ => demand = .insist
  | .pushFront _ demand _ => demand = .insist
  | _ => False

/-- The allocator of which an operation asks for nodes, and their values in the order in which it
does. -/
inductive Op.Asks (lists : Lists T) : Op T π → Handle T → List Int64 → Prop where
  | node {target : String} {demand : Demand} {owner : Handle T} {value : Int64} :
      Asks lists (.node target demand owner value) owner [value]
  | chain {target : String} {demand : Demand} {owner : Handle T} {values : List Int64} :
      Asks lists (.chain target demand owner values) owner values.reverse
  | pushFront {name : String} {demand : Demand} {value : Int64} {chain : Chain T}
      (found : lists name = some (.chain chain)) :
      Asks lists (.pushFront name demand value) chain.owner [value]

/-- What an operation that only tries still does once it has been refused: a chain under
construction is abandoned and its nodes are given back. -/
def Op.Retreats (built : Tail T) (total : Nat) (cut after : Store T π) : Op T π → Prop
  | .chain .. => after.events = cut.events ++ .buildAbandoned built.length total ::
      built.map (fun node => .nodeReleased node.value node.addr) ∧ GivenBack built cut after
  | _ => after = cut

/-- How an operation that insists is cut off by a refusal, with the nodes that it has got by then
still in the books, and how it goes on if it only tries. -/
def Op.BreaksOff (lists : Lists T) (op : Op T π) (layout : Layout) (before cut after : Store T π) :
    Prop :=
  ∃ owner pending built, op.Asks lists owner pending ∧ layout = recordLayout π owner ∧
    Interrupted owner pending built before cut ∧ Stands built owner cut ∧
    op.Retreats built pending.length cut after

theorem Reply.isAbort_failed {failure : Failure} (unaborted : ∀ layout, failure ≠ .aborted layout) :
    (failed failure : Reply T).isAbort = false := by
  cases failure with
  | aborted layout => exact absurd rfl (unaborted layout)
  | _ => rfl

theorem Reply.isAbort_orFault {reply : Reply T} (lasting : reply.isAbort = false)
    (fault : Option Fault) : (reply.orFault fault).isAbort = false := by
  cases fault with
  | none => exact lasting
  | some fault =>
    cases reply with
    | failed failure => exact lasting
    | _ => rfl

theorem Zipper.isAbort_walk (answers : List (Answer T)) (aside : List (String × Tail T))
    (zipper : Zipper T) (session : Session T π) (steps : List WalkStep) :
    (zipper.walk answers aside session steps).reply.isAbort = false := by
  induction steps generalizing answers aside zipper session with
  | nil => rfl
  | cons step steps ih =>
    cases step with
    | value | terminal | valueAndNext | next | owner | unrecognised => exact ih _ _ _ _
    | render style =>
      cases style with
      | none => rfl
      | some style => exact ih _ _ _ _
    | advance =>
      rw [walk]
      split
      · exact ih _ _ _ _
      · rfl
    | release =>
      rw [walk]
      split <;> rfl
    | splitOff target =>
      cases target with
      | some name => exact ih _ _ _ _
      | none =>
        simp only [walk]
        split
        · exact ih _ _ _ _
        · rfl
    | link source target =>
      cases target with
      | some name => exact ih _ _ _ _
      | none =>
        simp only [walk]
        split
        · exact ih _ _ _ _
        · rfl

namespace Session

variable (session : Session T π)

/-- How an operation that insists ends, and how it ends if it only tries. -/
inductive Parts (op : Op T π) : Reply T × Session T π → Reply T × Session T π → Prop where
  | alike {result : Reply T × Session T π} (granted : result.1 ≠ .failed .refused)
      (lasting : result.1.isAbort = false) : Parts op result result
  | apart {layout : Layout} {cut after : Session T π}
      (breaks : op.BreaksOff session.lists layout session.store cut.store after.store) :
      Parts op (.failed (.aborted layout), cut) (.failed .refused, after)

namespace Parts

variable {session} {op : Op T π}

theorem answer (answer : Answer T) (after : Session T π) :
    session.Parts op (.answer answer, after) (.answer answer, after) :=
  .alike nofun rfl

theorem problem (problem : Problem) (after : Session T π) :
    session.Parts op (.problem problem, after) (.problem problem, after) :=
  .alike nofun rfl

theorem fault (fault : Fault) (after : Session T π) :
    session.Parts op (.failed (.fault fault), after) (.failed (.fault fault), after) :=
  .alike nofun rfl

theorem concluded (answer : Answer T) (result : Option Fault × Session T π) :
    session.Parts op (conclude (.answer answer) result) (conclude (.answer answer) result) := by
  obtain ⟨_ | fault, after⟩ := result
  · exact .answer answer after
  · exact .fault fault after

theorem lasting {plain tried : Reply T × Session T π} (parts : session.Parts op plain tried) :
    tried.1.isAbort = false := by
  cases parts with
  | alike _ lasting => exact lasting
  | apart _ => rfl

end Parts

theorem parts_node (target : String) (owner : Handle T) (value : Int64) :
    session.Parts (.node target .insist owner value) (session.node target .insist owner value)
      (session.node target .attempt owner value) := by
  rcases Node.allocate_insist owner value session.store with
    ⟨cut, refused, tried, insisted⟩ | ⟨same, unrefused⟩
  · simp only [node, tried, insisted]
    exact .apart ⟨owner, [value], [], .node, rfl, .first refused, .nil owner _, rfl⟩
  · simp only [node, same]
    rcases tried : Node.allocate .attempt owner value session.store with ⟨failure | node, after⟩
    · obtain ⟨fault, rfl⟩ := unrefused failure (congrArg Prod.fst tried)
      exact .fault fault _
    · exact .concluded _ _

theorem parts_chain (target : String) (owner : Handle T) (values : List Int64) :
    session.Parts (.chain target .insist owner values) (session.chain target .insist owner values)
      (session.chain target .attempt owner values) := by
  rcases Chain.build_insist owner values session.store with
    ⟨built, cut, interrupted, stands, insisted, given_up⟩ | ⟨same, unrefused⟩
  · simp only [chain, insisted, given_up]
    refine .apart ⟨owner, values.reverse, built, .chain, rfl, interrupted, stands, ?_, ?_⟩
    · rw [Tail.events_discard, Store.events_emit, List.length_reverse, List.append_assoc,
        List.singleton_append]
    · have noted : Stands built owner (cut.emit (.buildAbandoned built.length values.length)) :=
        stands.of_ledger_eq fun _ => rfl
      have given := noted.discard.2
      exact ⟨given.gone, given.kept, given.releases, given.allocations, given.budget,
        given.parent⟩
  · simp only [chain, same]
    rcases tried : Chain.build .attempt owner values session.store with ⟨failure | chain, after⟩
    · obtain ⟨fault, rfl⟩ := unrefused failure (congrArg Prod.fst tried)
      exact .fault fault _
    · exact .concluded _ _

theorem parts_pushFront (name : String) (value : Int64) :
    session.Parts (.pushFront name .insist value) (session.pushFront name .insist value)
      (session.pushFront name .attempt value) := by
  simp only [pushFront]
  split
  · next chain found =>
    rcases Node.allocate_insist chain.owner value session.store with
      ⟨cut, refused, tried, insisted⟩ | ⟨same, unrefused⟩
    · simp only [Chain.pushFront, tried, insisted]
      exact .apart
        ⟨chain.owner, [value], [], .pushFront found, rfl, .first refused, .nil chain.owner _, rfl⟩
    · simp only [Chain.pushFront, same]
      rcases tried : Node.allocate .attempt chain.owner value session.store with
        ⟨failure | node, after⟩
      · obtain ⟨fault, rfl⟩ := unrefused failure (congrArg Prod.fst tried)
        exact .fault fault _
      · exact .answer .done _
  · exact .problem .noChain session

theorem parts_perform {op : Op T π} (insists : op.Insists) :
    session.Parts op (session.perform op) (session.perform op.tried) := by
  cases op with
  | node target demand owner value =>
    obtain rfl : demand = .insist := insists
    exact session.parts_node target owner value
  | chain target demand owner values =>
    obtain rfl : demand = .insist := insists
    exact session.parts_chain target owner values
  | pushFront name demand value =>
    obtain rfl : demand = .insist := insists
    exact session.parts_pushFront name value
  | _ => exact insists.elim

/-- Only an operation that insists ends the run. -/
theorem isAbort_perform {op : Op T π} (trying : ¬ op.Insists) :
    (session.perform op).1.isAbort = false := by
  cases op with
  | node target demand owner value =>
    cases demand with
    | attempt => exact (session.parts_node target owner value).lasting
    | insist => exact absurd rfl trying
  | chain target demand owner values =>
    cases demand with
    | attempt => exact (session.parts_chain target owner values).lasting
    | insist => exact absurd rfl trying
  | pushFront name demand value =>
    cases demand with
    | attempt => exact (session.parts_pushFront name value).lasting
    | insist => exact absurd rfl trying
  | empty | drop => exact Reply.isAbort_orFault rfl _
  | inspect name position =>
    simp only [perform, inspect]
    split <;> rfl
  | info name =>
    simp only [perform, info]
    split <;> rfl
  | render name position style =>
    simp only [perform, render]
    split <;> rfl
  | stream name position steps =>
    simp only [perform, stream]
    split
    · rfl
    · split <;> rfl
  | cursor name position steps =>
    simp only [perform, cursor]
    split
    · split <;> rfl
    · split
      · rfl
      · split <;> rfl
  | link name position source target =>
    simp only [perform, link]
    split
    · rfl
    · split
      · rfl
      · exact Reply.isAbort_orFault rfl _
  | unlink name position target =>
    simp only [perform, unlink]
    split
    · rfl
    · exact Reply.isAbort_orFault rfl _
  | release name target =>
    simp only [perform, release]
    split
    · rfl
    · split
      · exact Reply.isAbort_orFault rfl _
      · rfl
  | move name target =>
    cases target with
    | none => exact Reply.isAbort_orFault rfl _
    | some target => exact Reply.isAbort_orFault rfl _
  | intoHead name target =>
    simp only [perform, intoHead]
    split
    · exact Reply.isAbort_orFault rfl _
    · rfl
  | popFront name =>
    simp only [perform, popFront]
    split
    · split <;> rfl
    · rfl
  | walk name steps =>
    simp only [perform, walk]
    split
    · rfl
    · split
      · rfl
      · exact Reply.isAbort_orFault (Zipper.isAbort_walk _ _ _ _ _) _
  | allocate i layout =>
    simp only [perform, allocate]
    split
    · rfl
    · next asked =>
      refine Reply.isAbort_failed fun wanted same => ?_
      subst same
      exact Store.allocateAlong_ne_aborted _ _ _ _ (congrArg Prod.fst asked)
  | deallocate i addr layout => exact Reply.isAbort_orFault rfl _
  | exchange i addr held wanted =>
    simp only [perform, exchange]
    split
    · rfl
    · next asked =>
      refine Reply.isAbort_failed fun layout same => ?_
      subst same
      exact Store.exchange_ne_aborted (congrArg Prod.fst asked)
  | _ => rfl

end Session

end Operations

section Machines

namespace Machine

theorem intact_ok {α : Type} (value : α) (addr : Nat) :
    (.ok value : Except Hazard α) ≠ .error (.overwrite addr) := nofun

theorem intact_dangling {α : Type} (lost addr : Nat) :
    (.error (.dangling lost) : Except Hazard α) ≠ .error (.overwrite addr) := nofun

variable (machine : Machine T π)

/-- An operation that insists does what it does when it tries, or it ends the run, and no record is
overwritten when it tries. -/
theorem perform_tried (op : Op T π) : machine.perform op = machine.perform op.tried ∨
    (∃ layout cut, machine.perform op = .ok (.failed (.aborted layout), cut)) ∧
      ∀ addr, machine.perform op.tried ≠ .error (.overwrite addr) := by
  cases op with
  | node target demand owner value =>
    cases demand with
    | attempt => exact Or.inl rfl
    | insist =>
      simp only [Op.tried, perform, node]
      rcases machine.depot.allocate_insist owner value with ⟨layout, cut, stops, refused⟩ | same
      · rw [stops, refused]
        exact Or.inr ⟨⟨layout, _, rfl⟩, intact_ok _⟩
      · exact Or.inl (by rw [same])
  | chain target demand owner values =>
    cases demand with
    | attempt => exact Or.inl rfl
    | insist =>
      simp only [Op.tried, perform, chain, Depot.build]
      rcases machine.depot.buildOnto_insist owner values.length values.reverse 0 none with
        ⟨layout, cut, stops, ⟨failure, after, failed⟩ | ⟨addr, lost⟩⟩ | same
      · rw [stops, failed]
        exact Or.inr ⟨⟨layout, _, rfl⟩, intact_ok _⟩
      · rw [stops, lost]
        exact Or.inr ⟨⟨layout, _, rfl⟩, intact_dangling addr⟩
      · exact Or.inl (by rw [same])
  | pushFront name demand value =>
    cases demand with
    | attempt => exact Or.inl rfl
    | insist =>
      simp only [Op.tried, perform, pushFront]
      split
      · next first owner _ =>
        rcases machine.depot.pushOnto_insist owner value first with
          ⟨layout, cut, stops, refused⟩ | same
        · rw [stops, refused]
          exact Or.inr ⟨⟨layout, _, rfl⟩, intact_ok _⟩
        · exact Or.inl (by rw [same])
      · exact Or.inl rfl
  | _ => exact Or.inl rfl

end Machine

theorem Op.not_insists_tried (op : Op T π) : ¬ op.tried.Insists := by
  cases op with
  | node | chain | pushFront => exact nofun
  | _ => exact id

theorem Op.tried_eq {op : Op T π} (trying : ¬ op.Insists) : op.tried = op := by
  cases op with
  | node _ demand _ _ | chain _ demand _ _ | pushFront _ demand _ =>
    cases demand with
    | attempt => rfl
    | insist => exact absurd rfl trying
  | _ => rfl

theorem Op.isDirect_tried {op : Op T π} : op.tried.IsDirect ↔ op.IsDirect := by
  cases op <;> exact Iff.rfl

theorem Op.not_isDirect_of_map_tried {request : Except Problem (Op T π)} {op' : Op T π}
    (same : request.map tried = .ok op') (listed : ∀ op, request = .ok op → ¬ op.IsDirect) :
    ¬ op'.IsDirect := by
  cases request with
  | error problem => cases same
  | ok op =>
    obtain rfl : op.tried = op' := Except.ok.inj same
    exact mt Op.isDirect_tried.1 (listed op rfl)

theorem Session.isAbort_serve_tried (session : Session T π) (request : Except Problem (Op T π)) :
    (session.serve (request.map Op.tried)).1.isAbort = false := by
  cases request with
  | error problem => rfl
  | ok op => exact session.isAbort_perform op.not_insists_tried

variable {machine : Machine T π} {session : Session T π}

/-- An operation that insists is cut off by a machine just where it is refused when it tries. -/
theorem Represents.perform_tried (represents : Represents 0 machine session) (op : Op T π) :
    machine.perform op = machine.perform op.tried ∧
        (op.Insists → ∀ after, machine.perform op.tried ≠ .ok (.failed .refused, after)) ∨
      op.Insists ∧ ∃ layout cut after, machine.perform op = .ok (.failed (.aborted layout), cut) ∧
        machine.perform op.tried = .ok (.failed .refused, after) ∧
        op.BreaksOff session.lists layout machine.store cut.store after.store := by
  by_cases insists : op.Insists
  · have careful : Careful True session.store session.owned := Or.inl trivial
    have tried := represents.perform_outcome careful op.tried
    have plain := represents.perform_outcome careful op
    have parts := session.parts_perform insists
    generalize session.perform op.tried = expected at tried parts
    generalize session.perform op = insisted at plain parts
    rcases machine.perform_tried op with same | ⟨⟨layout, cut, stops⟩, intact⟩
    · refine Or.inl ⟨same, fun _ after refused => ?_⟩
      rw [refused] at tried
      rw [same, refused] at plain
      have replied := tried.result.reply
      have replied' := plain.result.reply
      cases parts with
      | alike granted _ => exact granted replied.symm
      | apart _ => cases replied'
    -- No record is overwritten, so the operation that tries has come to a reply as well.
    · rw [stops] at plain
      obtain ⟨ended, left, -⟩ := plain.result
      obtain ⟨⟨reply, after⟩, performed, replied, stored, -⟩ := tried.exists_of_intact intact
      cases parts with
      | alike _ lasting =>
        rw [← ended] at lasting
        cases lasting
      | apart breaks =>
        cases ended
        obtain rfl : reply = .failed .refused := replied
        have start : machine.store = session.store := represents.store
        refine Or.inr ⟨insists, _, cut, after, stops, performed, ?_⟩
        rw [start, left, stored]
        exact breaks
  · rw [Op.tried_eq insists]
    exact Or.inl ⟨rfl, fun insisting => absurd insisting insists⟩

theorem Represents.serve_tried (represents : Represents 0 machine session)
    (request : Except Problem (Op T π)) :
    machine.serve request = machine.serve (request.map Op.tried) ∧
        (∀ op, request = .ok op → op.Insists →
          ∀ after, machine.serve (request.map Op.tried) ≠ .ok (.failed .refused, after)) ∨
      ∃ op, request = .ok op ∧ op.Insists ∧ ∃ layout cut after,
        machine.serve request = .ok (.failed (.aborted layout), cut) ∧
        machine.serve (request.map Op.tried) = .ok (.failed .refused, after) ∧
        op.BreaksOff session.lists layout machine.store cut.store after.store := by
  cases request with
  | error problem => exact Or.inl ⟨rfl, nofun⟩
  | ok op =>
    rcases represents.perform_tried op with ⟨same, granted⟩ | broken
    · refine Or.inl ⟨same, fun _ chosen => ?_⟩
      cases chosen
      exact granted
    · exact Or.inr ⟨op, rfl, broken⟩

/-- Two trails of a machine: one in which every operation only tries, and one that serves the
requests as they are. They are the same, down to a hazard, or they are until an operation that
insists is refused. -/
inductive Machine.Agrees : Machine T π → List (Except Problem (Op T π)) →
    Except Hazard (List (Reply T × Machine T π)) → Except Hazard (List (Reply T × Machine T π)) →
    Prop where
  | nil {machine : Machine T π} : Agrees machine [] (.ok []) (.ok [])
  | lost {machine : Machine T π} {requests : List (Except Problem (Op T π))} {hazard : Hazard} :
      Agrees machine requests (.error hazard) (.error hazard)
  | along {machine after : Machine T π} {request : Except Problem (Op T π)}
      {requests : List (Except Problem (Op T π))} {reply : Reply T}
      {tries plains : Except Hazard (List (Reply T × Machine T π))}
      (lasting : reply.isAbort = false)
      (granted : ∀ op, request = .ok op → op.Insists → reply ≠ .failed .refused)
      (onward : Agrees after requests tries plains) :
      Agrees machine (request :: requests) (tries.map (List.cons (reply, after)))
        (plains.map (List.cons (reply, after)))
  | broken {machine cut after : Machine T π} {op : Op T π}
      {requests : List (Except Problem (Op T π))} {lists : Lists T} {layout : Layout}
      {tries : Except Hazard (List (Reply T × Machine T π))} (insists : op.Insists)
      (shows : machine.clearEvents.Shows lists)
      (breaks : op.BreaksOff lists layout machine.clearEvents.store cut.store after.store) :
      Agrees machine (.ok op :: requests) (tries.map (List.cons (.failed .refused, after)))
        (.ok [(.failed (.aborted layout), cut)])

/-- None of the operations that insist is refused when all of them try. -/
def Spared (requests : List (Except Problem (Op T π))) (tries : List (Reply T × Machine T π)) :
    Prop :=
  List.Forall₂ (fun request result => ∀ op, request = .ok op → op.Insists →
    result.1 ≠ .failed .refused) requests tries

theorem Machine.Agrees.eq_of_spared {requests : List (Except Problem (Op T π))}
    {tried plain : Except Hazard (List (Reply T × Machine T π))}
    {tries : List (Reply T × Machine T π)} (agrees : machine.Agrees requests tried plain)
    (went : tried = .ok tries) (spared : Spared requests tries) : plain = .ok tries := by
  induction agrees generalizing tries with
  | nil => exact went
  | lost => cases went
  | @along _ _ _ _ _ tried _ _ _ _ ih =>
    cases tried with
    | error hazard => cases went
    | ok later =>
      cases went
      obtain _ | ⟨-, spared⟩ := spared
      rw [ih rfl spared]
      rfl
  | @broken _ _ _ op _ _ _ tried insists _ _ =>
    cases tried with
    | error hazard => cases went
    | ok later =>
      cases went
      obtain _ | ⟨here, -⟩ := spared
      exact absurd rfl (here op rfl insists)

theorem Represents.trail_tried (represents : Represents 0 machine session)
    (requests : List (Except Problem (Op T π))) :
    machine.Agrees requests (machine.trail (requests.map (Except.map Op.tried)))
      (machine.trail requests) := by
  induction requests generalizing machine session with
  | nil => exact .nil
  | cons request requests ih =>
    have represents := represents.clearEvents
    have careful : Careful True session.clearEvents.store session.clearEvents.owned :=
      Or.inl trivial
    have outcome := represents.serve_outcome careful (request.map Op.tried)
    have lasting := session.clearEvents.isAbort_serve_tried request
    rw [List.map_cons]
    rcases represents.serve_tried request with
      ⟨same, granted⟩ | ⟨op, rfl, insists, layout, cut, after, stops, refused, breaks⟩
    · rcases served : machine.clearEvents.serve (request.map Op.tried) with
        hazard | ⟨reply, after⟩
      · rw [Machine.trail, Machine.trail, same, served]
        exact .lost
      · rw [served] at outcome
        obtain ⟨replied, -, kept⟩ := outcome.result
        have here : reply.isAbort = false := (congrArg Reply.isAbort replied).trans lasting
        rw [Machine.trail_of_served served here, Machine.trail_of_served (same.trans served) here]
        refine .along here (fun op chosen insists refused => ?_) (ih (kept lasting))
        exact granted op chosen insists after (refused ▸ served)
    · have ended : machine.trail (.ok op :: requests) =
          .ok [(.failed (.aborted layout), cut)] := by
        rw [Machine.trail, stops]
        rfl
      rw [Machine.trail_of_served refused rfl, ended]
      exact .broken insists represents.shows breaks

/-- Without an operation that insists no request ends the run. -/
theorem Represents.lasting_trail (represents : Represents 0 machine session)
    {requests : List (Except Problem (Op T π))} {tries : List (Reply T × Machine T π)}
    (went : machine.trail (requests.map (Except.map Op.tried)) = .ok tries) :
    ∀ result ∈ tries, result.1.isAbort = false := by
  induction requests generalizing machine session tries with
  | nil =>
    cases went
    exact List.forall_mem_nil _
  | cons request requests ih =>
    obtain ⟨reply, after, later, served, rfl, onward⟩ := Machine.trail_cons_ok went
    have careful : Careful True session.clearEvents.store session.clearEvents.owned :=
      Or.inl trivial
    have outcome := represents.clearEvents.serve_outcome careful (request.map Op.tried)
    have lasting := session.clearEvents.isAbort_serve_tried request
    rw [served] at outcome
    obtain ⟨replied, -, kept⟩ := outcome.result
    have here : reply.isAbort = false := (congrArg Reply.isAbort replied).trans lasting
    exact List.forall_mem_cons.2 ⟨here, ih (kept lasting) (onward here)⟩

/-- A program goes the same way as if all its operations only tried, with the same replies, stores
and events. If none of its operations that insist is refused then, it goes that way to the end and
is reported on as if they tried. Otherwise it ends at the first of them that is refused, with the
layout of a record; what has been written down by then, and what the operation does beyond that if
it tries, is said by `Op.BreaksOff`. Over a parent that grants no address twice, and with nothing
asked past the lists, a program in which all operations try is served to its end. -/
theorem Machine.agrees_trail (budgets : Fin T.size → Option Nat) (parent : π)
    (requests : List (Except Problem (Op T π))) :
    let start : Machine T π := opened (.opened budgets parent)
    let tried := requests.map (Except.map Op.tried)
    start.Agrees requests (start.trail tried) (start.trail requests) ∧
      (∀ tries, start.trail tried = .ok tries → (∀ result ∈ tries, result.1.isAbort = false) ∧
        (Spared requests tries → start.trail requests = .ok tries ∧
          start.run requests = start.run tried)) ∧
      (Parent.NeverReuses parent → (∀ op, .ok op ∈ requests → ¬ op.IsDirect) →
        ∃ tries, start.trail tried = .ok tries) := by
  intro start tried
  have represents := Represents.opened (Store.opened budgets parent : Store T π)
  have agrees := represents.trail_tried requests
  refine ⟨agrees, fun tries went => ⟨represents.lasting_trail went, fun spared => ?_⟩,
    fun fresh listed => ?_⟩
  · have followed := agrees.eq_of_spared went spared
    exact ⟨followed, run_congr (List.length_map _).symm followed went⟩
  · have listed' : ∀ op, .ok op ∈ tried → ¬ op.IsDirect := by
      intro op' member
      obtain ⟨request, member, same⟩ := List.mem_map.1 member
      exact Op.not_isDirect_of_map_tried same fun op chosen => listed op (chosen ▸ member)
    obtain ⟨tries, went, -⟩ := exists_trail budgets fresh listed'
    exact ⟨tries, went⟩

/-- The second of two nodes is one too many for the budget. -/
theorem Machine.agrees_trail_fork :
    let start : Machine .fork Arena := opened (.opened (fun _ => some 1) (.ofCapacity 4096))
    let requests (demand : Demand) : List (Except Problem (Op .fork Arena)) :=
      [.ok (.chain "list" demand (some (0 : Fin 3)) [1, 2])]
    let told (demand : Demand) : Except Hazard (List (Reply .fork × List Event)) :=
      (start.trail (requests demand)).map
        (List.map fun result => (result.1, result.2.store.events))
    (∃ tries, start.trail (requests .attempt) = .ok tries ∧
      start.Agrees (requests .insist) (.ok tries) (start.trail (requests .insist))) ∧
    told .insist = .ok [(.failed (.aborted ⟨24, 8⟩),
      [.nodeAllocated 2 4096, .requestRefused ⟨24, 8⟩])] ∧
    told .attempt = .ok [(.failed .refused,
      [.nodeAllocated 2 4096, .requestRefused ⟨24, 8⟩, .buildAbandoned 1 2,
        .nodeReleased 2 4096])] := by
  intro start requests told
  obtain ⟨agrees, -, served⟩ := agrees_trail (fun _ : Fin Layering.fork.size => some 1)
    (Arena.ofCapacity 4096) (requests .insist)
  have listed : ∀ op, .ok op ∈ requests .insist → ¬ op.IsDirect := by
    intro op member
    cases List.mem_singleton.1 member
    exact id
  obtain ⟨tries, went⟩ := served (Arena.neverReuses _) listed
  rw [went] at agrees
  exact ⟨⟨tries, went, agrees⟩, by decide +kernel, by decide +kernel⟩

end Machines

end ChainLedger
