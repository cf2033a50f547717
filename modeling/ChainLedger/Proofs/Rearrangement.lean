import ChainLedger.Proofs.Frame
import ChainLedger.Proofs.Refinement

set_option autoImplicit false

namespace ChainLedger

variable {T : Layering} {π : Type}

namespace Lists

/-- Whether a list can be stored without a node being dropped: there is a name for it that has no
nodes, or no name and no node. -/
def HasRoom (lists : Lists T) (tail : Tail T) : Option String → Prop
  | none => tail = []
  | some name => lists.nodes name = []

/-- Whether lists can be stored one after the other without a node being dropped. -/
def HasRoomForAll : List (String × Tail T) → Lists T → Prop
  | [], _ => True
  | (name, tail) :: aside, lists =>
      lists.nodes name = [] ∧ HasRoomForAll aside (lists.set name (.loose tail))

/-- The lists once those of one name, if there is one, stand behind a position under another. -/
def attach (lists : Lists T) (name : String) (register : Register T) (position : Nat)
    (source : Option String) : Lists T :=
  (lists.without source).set name
    (register.withNodes (register.nodes.take (position + 1) ++ lists.source source))

theorem attach_none (lists : Lists T) (name : String) (register : Register T) (position : Nat) :
    lists.attach name register position none =
      lists.set name (register.withNodes (register.nodes.take (position + 1))) := by
  rw [attach, source, List.append_nil, without]

theorem without_of_ne {lists : Lists T} {name : String} {source : Option String}
    (apart : source ≠ some name) : lists.without source name = lists name :=
  without_of_not_mem fun member => apart (Option.mem_toList.1 member)

end Lists

namespace Excursion

/-- The nodes that a step of a walk drops. -/
def loses (walk : Excursion T) : WalkStep → Tail T
  | .release => walk.nodes[walk.position]?.toList
  | .splitOff none | .link _ none => walk.nodes.drop (walk.position + 1)
  | _ => []

/-- Whether no step of a walk drops a node. -/
def Keeps : List WalkStep → Excursion T → Prop
  | [], _ => True
  | step :: steps, walk =>
      walk.loses step = [] ∧ ∀ answer between, Steps step walk answer between → between.Keeps steps

end Excursion

namespace Lists

variable [Parent π]

/-- Whether an operation puts nodes elsewhere and drops none. -/
def Keeps (lists : Lists T) : Op T π → Prop
  | .link name position source target => source ≠ some name → ∀ register,
      lists name = some register → position < register.nodes.length →
        (lists.attach name register position source).HasRoom
          (register.nodes.drop (position + 1)) target
  | .unlink name position target => ∀ register, lists name = some register →
      position < register.nodes.length →
        (lists.attach name register position none).HasRoom
          (register.nodes.drop (position + 1)) target
  | .move name target => (lists.clear name).HasRoom (lists.nodes name) target
  | .intoHead name target =>
      lists.IsChain name → (lists.clear name).HasRoom (lists.nodes name) target
  | .walk name steps => ∀ register, lists name = some register → register.nodes ≠ [] →
      Excursion.Keeps steps ⟨register.nodes, 0, lists.clear name, []⟩ ∧
        ∀ outcome ended,
          Excursion.Walks ⟨register.nodes, 0, lists.clear name, []⟩ steps outcome ended →
          (ended.lists.set name (register.withNodes ended.nodes)).HasRoomForAll ended.aside
  | _ => False

def KeepsAll : List (Op T π) → Lists T → Prop
  | [], _ => True
  | op :: ops, lists =>
      lists.Keeps op ∧ ∀ reply later, Acts op lists reply later → later.KeepsAll ops

end Lists

namespace Session

structure Quiet (before : Session T π) (result : Reply T × Session T π) : Prop where
  calm : result.1.IsCalm
  store : result.2.store = before.store

theorem Quiet.problem (session : Session T π) (cause : Problem) :
    session.Quiet (.problem cause, session) :=
  ⟨⟨rfl, rfl⟩, rfl⟩

theorem Quiet.conclude {before : Session T π} {reply : Reply T}
    {result : Option Fault × Session T π} (calm : reply.IsCalm)
    (stored : result.1 = none ∧ result.2.store = before.store) :
    before.Quiet (conclude reply result) := by
  obtain ⟨fault, after⟩ := result
  obtain ⟨quiet, store⟩ := stored
  obtain rfl : fault = none := quiet
  exact ⟨calm, store⟩

variable [Parent π] {session : Session T π} {name : String} {target : Option String} {tail : Tail T}

theorem dispose_room (room : session.lists.HasRoom tail target) :
    (session.dispose target tail).1 = none ∧
      (session.dispose target tail).2.store = session.store := by
  cases target with
  | none =>
    have empty : tail = [] := room
    rw [empty, dispose, discard, Tail.discard_nil]
    exact ⟨rfl, rfl⟩
  | some name =>
    have empty : session.nodes name = [] := room
    rw [dispose, put, empty, discard, Tail.discard_nil]
    exact ⟨rfl, rfl⟩

theorem putAll_room {aside : List (String × Tail T)} (room : session.lists.HasRoomForAll aside) :
    (session.putAll aside).1 = none ∧ (session.putAll aside).2.store = session.store := by
  induction aside generalizing session with
  | nil => exact ⟨rfl, rfl⟩
  | cons entry aside ih =>
    obtain ⟨name, tail⟩ := entry
    obtain ⟨here, behind⟩ := room
    have first : (session.dispose (some name) tail).1 = none ∧
        (session.dispose (some name) tail).2.store = session.store := dispose_room here
    rw [dispose] at first
    rw [← session.lists_put name] at behind
    obtain ⟨quiet, store⟩ := ih behind
    simp only [putAll, first.1, quiet, Option.or_none]
    exact ⟨trivial, store.trans first.2⟩

theorem quiet_link {position : Nat} {source : Option String}
    (keeps : session.lists.Keeps (.link name position source target : Op T π)) :
    session.Quiet (session.link name position source target) := by
  simp only [link]
  split
  · exact .problem session _
  · next apart =>
    split
    · exact .problem session _
    · next kept cut found =>
      obtain ⟨register, there, inside, rfl, rfl⟩ := session.exists_of_cutAfter? name found
      have still : (session.take? source).2.lists name = some register := by
        rw [lists_take?, Lists.without_of_ne apart, there]
      have room := keeps apart register there inside
      rw [Lists.attach, ← lists_take?, ← take?_fst, ← lists_setNodes _ _ still] at room
      obtain ⟨quiet, store⟩ := dispose_room room
      exact .conclude ⟨rfl, rfl⟩ ⟨quiet, store.trans (session.store_take? source)⟩

theorem quiet_unlink {position : Nat}
    (keeps : session.lists.Keeps (.unlink name position target : Op T π)) :
    session.Quiet (session.unlink name position target) := by
  simp only [unlink]
  split
  · exact .problem session _
  · next kept cut found =>
    obtain ⟨register, there, inside, rfl, rfl⟩ := session.exists_of_cutAfter? name found
    have room := keeps register there inside
    rw [Lists.attach_none, ← lists_setNodes _ _ there] at room
    exact .conclude ⟨rfl, rfl⟩ (dispose_room room)

theorem quiet_move (keeps : session.lists.Keeps (.move name target : Op T π)) :
    session.Quiet (session.move name target) := by
  have room : (session.take name).2.lists.HasRoom (session.nodes name) target := by
    rw [lists_take]
    exact keeps
  have stored := dispose_room room
  simp only [move]
  split
  · exact .conclude ⟨rfl, rfl⟩ stored
  · exact .conclude ⟨rfl, rfl⟩ stored

theorem quiet_intoHead (keeps : session.lists.Keeps (.intoHead name target : Op T π)) :
    session.Quiet (session.intoHead name target) := by
  simp only [intoHead]
  split
  · next chain found =>
    have room : (session.take name).2.lists.HasRoom (session.nodes name) target := by
      rw [lists_take]
      exact keeps (session.isChain_lists name found)
    exact .conclude ⟨rfl, rfl⟩ (dispose_room room)
  · exact .problem session _

end Session

/-- A walk that drops no node has a calm reply and leaves the store as it is. -/
def WalkEnd.Quiet (before : Session T π) (ended : WalkEnd T π) : Prop :=
  ended.reply.IsCalm ∧ ended.session.store = before.store

variable [Parent π]

theorem Zipper.quiet_link {steps : List WalkStep} (source target : Option String)
    (answers : List (Answer T)) (aside : List (String × Tail T)) (zipper : Zipper T)
    (session : Session T π)
    (behind : ∀ answers aside (zipper : Zipper T) (session : Session T π),
      (zipper.excursion session aside).Keeps steps →
        (zipper.walk answers aside session steps).Quiet session)
    (lost : target = none → zipper.rest = [])
    (keeps : ((zipper.excursion session aside).relinked (session.lists.source source) target
      (session.lists.without source)).Keeps steps) :
    (zipper.walk answers aside session (.link source target :: steps)).Quiet session := by
  have lists := session.lists_take? source
  have nodes := session.take?_fst source
  have store := session.store_take? source
  rcases taken : session.take? source with ⟨successors, others⟩
  rw [taken] at lists nodes store
  simp only at lists nodes store
  rw [← lists, ← nodes, relinked_excursion] at keeps
  simp only [walk, taken]
  cases target with
  | some name =>
    obtain ⟨calm, same⟩ := behind _ _ _ _ keeps
    exact ⟨calm, same.trans store⟩
  | none =>
    have empty : (zipper.link successors).1 = [] := lost rfl
    simp only [empty, Session.discard, Tail.discard_nil]
    obtain ⟨calm, same⟩ := behind _ _ _ _ keeps
    exact ⟨calm, same.trans store⟩

theorem Zipper.quiet_walk (steps : List WalkStep) (answers : List (Answer T))
    (aside : List (String × Tail T)) (zipper : Zipper T) (session : Session T π)
    (keeps : (zipper.excursion session aside).Keeps steps) :
    (zipper.walk answers aside session steps).Quiet session := by
  induction steps generalizing answers aside zipper session with
  | nil => exact ⟨⟨rfl, rfl⟩, rfl⟩
  | cons step steps ih =>
    obtain ⟨lost, onward⟩ := keeps
    have here := zipper.getElem?_nodes
    cases step with
    | value => exact ih _ _ _ _ (onward _ _ (.value here))
    | terminal => exact ih _ _ _ _ (onward _ _ .terminal)
    | valueAndNext => exact ih _ _ _ _ (onward _ _ (.valueAndNext here))
    | next => exact ih _ _ _ _ (onward _ _ .next)
    | owner => exact ih _ _ _ _ (onward _ _ (.owner here))
    | render style =>
      cases style with
      | none => exact ⟨⟨rfl, rfl⟩, rfl⟩
      | some style => exact ih _ _ _ _ (onward _ _ (.render here))
    | advance =>
      unfold walk
      split
      · next moved found =>
        obtain ⟨further, inside⟩ := zipper.excursion_of_advance? found session aside
        apply ih
        rw [further]
        exact onward _ _ (.advance inside)
      · exact ⟨⟨rfl, rfl⟩, rfl⟩
    | release =>
      rw [Excursion.loses, excursion, here] at lost
      cases lost
    | splitOff target =>
      rw [walk_splitOff]
      refine zipper.quiet_link none target answers aside session ih ?_ (onward _ _ .splitOff)
      rintro rfl
      rw [← zipper.drop_nodes]
      exact lost
    | link source target =>
      refine zipper.quiet_link source target answers aside session ih ?_ (onward _ _ .link)
      rintro rfl
      rw [← zipper.drop_nodes]
      exact lost
    | unrecognised => exact ih _ _ _ _ (onward _ _ .unrecognised)

namespace Session

variable {session : Session T π}

theorem quiet_walk {name : String} {steps : List WalkStep}
    (keeps : session.lists.Keeps (.walk name steps : Op T π)) :
    session.Quiet (session.walk name steps) := by
  simp only [walk]
  split
  · exact ⟨⟨rfl, rfl⟩, rfl⟩
  · next register found =>
    split
    · exact ⟨⟨rfl, rfl⟩, rfl⟩
    · next zipper place =>
      obtain ⟨whole, front⟩ := Zipper.nodes_of_ofTail? place
      have some : register.nodes ≠ [] := by
        rw [← whole, Zipper.nodes]
        exact List.append_ne_nil_of_right_ne_nil _ (List.cons_ne_nil _ _)
      obtain ⟨steady, room⟩ := keeps register found some
      have start : zipper.excursion
          (⟨session.store, session.registers.erase name⟩ : Session T π) [] =
            ⟨register.nodes, 0, session.lists.clear name, []⟩ := by
        rw [Zipper.excursion, whole, front, ← lists_take]
        rfl
      rw [← start] at steady room
      obtain ⟨calm, store⟩ := Zipper.quiet_walk steps [] [] zipper _ steady
      obtain ⟨outcome, position, -, walks⟩ := Zipper.conforms_walk steps [] [] zipper _ calm
      have stored := room outcome _ walks
      generalize zipper.walk [] [] ⟨session.store, session.registers.erase name⟩ steps = ended
        at calm store stored ⊢
      obtain ⟨reply, left, aside, walked⟩ := ended
      rw [← lists_registers_put walked name _ walked.store] at stored
      obtain ⟨quiet, same⟩ := putAll_room stored
      exact .conclude calm ⟨quiet, same.trans store⟩

/-- An operation that drops no node is not noticed outside of the lists. -/
theorem quiet_perform {op : Op T π} (keeps : session.lists.Keeps op) :
    session.Quiet (session.perform op) := by
  cases op with
  | link name position source target => exact quiet_link keeps
  | unlink name position target => exact quiet_unlink keeps
  | move name target => exact quiet_move keeps
  | intoHead name target => exact quiet_intoHead keeps
  | walk name steps => exact quiet_walk keeps
  | _ => exact keeps.elim

end Session

section Traffic

variable {direct : Prop} {store after : Store T π} {held left : Multiset (Node T)}

/-- A move of which nothing is written down leaves the nodes alone. -/
theorem Move.held_eq {fault : Option Fault} (move : Move direct store held fault after left)
    (still : after.trace = store.trace) : left = held := by
  cases move with
  | @allocate demand owner value _ _ node _ granted =>
    obtain ⟨between, asked, rfl⟩ := Node.granted_of_allocate granted
    have trace : between.trace = store.trace :=
      (Store.allocateAlong_ok owner.path_nodup asked).2.1
    have longer : (Event.nodeAllocated value node.addr :: between.trace) = store.trace := still
    rw [trace] at longer
    exact absurd longer (List.cons_ne_self _ _)
  | @free node _ _ _ _ freed =>
    have trace := node.trace_free store
    rw [freed, still] at trace
    exact absurd trace.symm (List.cons_ne_self _ _)
  | _ => rfl

/-- Traffic of which nothing is written down leaves the nodes alone. -/
theorem Traffic.held_eq {faults : List Fault} (traffic : Traffic direct store held faults after left)
    (still : after.trace = store.trace) : left = held := by
  induction traffic with
  | still => rfl
  | @go store held fault between left faults after rest first later ih =>
    obtain ⟨early, begun, -⟩ := Settles.move first
    obtain ⟨late, ended, -⟩ := Settles.traffic later
    have nothing : late ++ early = [] := by
      rw [ended, begun, ← List.append_assoc] at still
      exact List.append_left_eq_self.1 still
    obtain ⟨rfl, rfl⟩ := List.append_eq_nil_iff.1 nothing
    rw [ih ended, first.held_eq begun]

end Traffic

theorem Session.Quiet.owned_eq {session : Session T π} {op : Op T π}
    (quiet : session.Quiet (session.perform op)) :
    (session.perform op).2.owned = session.owned := by
  have direct : op.IsDirect → True := fun _ => trivial
  obtain ⟨faults, traffic, -⟩ := session.balanced_perform op direct quiet.calm.1
  exact traffic.held_eq (congrArg Store.trace quiet.store)

namespace Represents

variable {machine : Machine T π} {session : Session T π}

theorem performs_one (represents : Represents 0 machine session) {op : Op T π}
    (keeps : session.lists.Keeps op) :
    ∃ after, machine.perform op = .ok ((session.perform op).1, after) ∧
      Represents 0 after (session.perform op).2 := by
  have outcome : Outcome False (Matches (session.perform op)) (machine.perform op) := by
    cases op with
    | link name position source target =>
      exact represents.link_outcome name position source target
    | unlink name position target => exact represents.unlink_outcome name position target
    | move name target => exact represents.move_outcome name target
    | intoHead name target => exact represents.intoHead_outcome name target
    | walk name steps => exact represents.walk_outcome name steps
    | _ => exact keeps.elim
  obtain ⟨⟨reply, after⟩, performed, answered, -, onward⟩ := outcome.exists_ok
  obtain rfl : reply = (session.perform op).1 := answered
  exact ⟨after, performed, onward (Session.quiet_perform keeps).calm.1⟩

/-- Operations that drop no node have calm replies, do what the list equations say and leave the
store and all nodes together as they are. -/
theorem performs_keeping (represents : Represents 0 machine session) {ops : List (Op T π)}
    (keeps : session.lists.KeepsAll ops) :
    ∃ replies after later, machine.performAll ops = .ok (replies, after) ∧
      Represents 0 after later ∧ Lists.Run session.lists ops replies later.lists ∧
      (∀ reply ∈ replies, reply.IsCalm) ∧ later.store = session.store ∧
      later.owned = session.owned := by
  induction ops generalizing machine session with
  | nil =>
    exact ⟨[], machine, session, rfl, represents, .still, List.forall_mem_nil _, rfl, rfl⟩
  | cons op ops ih =>
    obtain ⟨here, behind⟩ := keeps
    have quiet := Session.quiet_perform here
    have acts := session.conforms_perform op quiet.calm
    obtain ⟨between, performed, onward⟩ := represents.performs_one here
    obtain ⟨replies, after, later, ran, represents', run, calm, store, owned⟩ :=
      ih onward (behind _ _ acts)
    refine ⟨_ :: replies, after, later, ?_, represents', .go acts run,
      List.forall_mem_cons.2 ⟨quiet.calm, calm⟩, store.trans quiet.store,
      owned.trans quiet.owned_eq⟩
    simp only [Machine.performAll, performed, ok_bind, quiet.calm.1, Bool.false_eq_true,
      ↓reduceIte, ran, pure_eq_ok]

end Represents

end ChainLedger
