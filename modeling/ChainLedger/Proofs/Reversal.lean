import ChainLedger.Proofs.Assembly
import ChainLedger.Proofs.Rearrangement

set_option autoImplicit false

namespace ChainLedger

variable {T : Layering} {π : Type}

namespace Register

theorem withNodes_withNodes (first second : Tail T) (register : Register T) :
    (register.withNodes first).withNodes second = register.withNodes second := by
  cases register <;> rfl

theorem withNodes_nodes (register : Register T) : register.withNodes register.nodes = register := by
  cases register <;> rfl

end Register

namespace Lists

variable {lists : Lists T} {name other : String} {register : Register T} {position : Nat}
  {source target : Option String}

/-- The lists once others have been attached and those that stood there have been stored. -/
def relink (lists : Lists T) (name : String) (register : Register T) (position : Nat)
    (source target : Option String) : Lists T :=
  (lists.attach name register position source).store target (register.nodes.drop (position + 1))

/-- The list to which others have been attached. -/
def attached (lists : Lists T) (register : Register T) (position : Nat)
    (source : Option String) : Register T :=
  register.withNodes (register.nodes.take (position + 1) ++ lists.source source)

theorem attach_self : lists.attach name register position source name =
    some (lists.attached register position source) :=
  Function.update_self _ _ _

theorem attach_of_ne (differs : other ≠ name) :
    lists.attach name register position source other = lists.without source other :=
  set_of_ne differs _

theorem nodes_of_eq_none (absent : lists name = none) : lists.nodes name = [] := by
  rw [nodes, absent]

theorem nodes_congr {lists' : Lists T} (same : lists' name = lists name) :
    lists'.nodes name = lists.nodes name := by
  rw [nodes, nodes, same]

theorem store_some_self (tail : Tail T) : lists.store (some name) tail name = some (.loose tail) :=
  Function.update_self _ _ _

theorem without_some_self : lists.without (some name) name = none :=
  Function.update_self _ _ _

theorem store_of_ne {tail : Tail T} (apart : target ≠ some name) :
    lists.store target tail name = lists name :=
  store_of_not_mem (fun member => apart (Option.mem_toList.1 member)) tail

theorem relink_of_ne (differs : other ≠ name) (elsewhere : target ≠ some other) :
    lists.relink name register position source target other = lists.without source other := by
  rw [relink, store_of_ne elsewhere, attach_of_ne differs]

section Positions

variable (inside : position < register.nodes.length)

include inside

theorem length_take_inside : (register.nodes.take (position + 1)).length = position + 1 :=
  List.length_take_of_le inside

theorem inside_attached : position < (lists.attached register position source).nodes.length := by
  rw [attached, Register.nodes_withNodes, List.length_append, length_take_inside inside]
  omega

theorem take_attached : (lists.attached register position source).nodes.take (position + 1) =
    register.nodes.take (position + 1) := by
  rw [attached, Register.nodes_withNodes, List.take_left' (length_take_inside inside)]

theorem drop_attached : (lists.attached register position source).nodes.drop (position + 1) =
    lists.source source := by
  rw [attached, Register.nodes_withNodes, List.drop_left' (length_take_inside inside)]

/-- What is cut off has no room under the name of the list itself. -/
theorem target_ne_of_room {tail : Tail T}
    (room : (lists.attach name register position source).HasRoom tail target) :
    target ≠ some name := by
  rintro rfl
  have empty : (lists.attached register position source).nodes = [] := by
    have none : (lists.attach name register position source).nodes name = [] := room
    rwa [nodes, attach_self] at none
  have some : position < (lists.attached register position source).nodes.length :=
    inside_attached inside
  rw [empty] at some
  exact Nat.not_lt_zero _ some

variable (room : (lists.attach name register position source).HasRoom
  (register.nodes.drop (position + 1)) target)

include room

theorem relink_self : lists.relink name register position source target name =
    some (lists.attached register position source) := by
  rw [relink, store_of_ne (target_ne_of_room inside room), attach_self]

omit inside in
theorem source_relink : (lists.relink name register position source target).source target =
    register.nodes.drop (position + 1) := by
  cases target with
  | none =>
    have empty : register.nodes.drop (position + 1) = [] := room
    exact empty.symm
  | some place =>
    rw [Lists.source, nodes, relink, store_some_self]
    rfl

variable (apart : source ≠ some name)

include apart

omit inside in
theorem room_relink : ((lists.relink name register position source target).attach name
    (lists.attached register position source) position target).HasRoom (lists.source source)
      source := by
  cases source with
  | none => exact rfl
  | some place =>
    have differs : place ≠ name := fun same => apart (congrArg some same)
    refine nodes_of_eq_none ?_
    rw [attach_of_ne differs]
    by_cases stored : target = some place
    · rw [stored, without_some_self]
    · rw [without_of_ne stored, relink_of_ne differs stored, without_some_self]

/-- To attach what was cut off is to have the lists as they were. -/
theorem relink_relink :
    let back := (lists.relink name register position source target).relink name
      (lists.attached register position source) position target source
    back name = some register ∧ ∀ other, other ≠ name → back.nodes other = lists.nodes other := by
  have cut := source_relink room
  refine ⟨?_, fun other differs => ?_⟩
  · rw [relink, store_of_ne apart, attach_self, attached, cut, take_attached inside,
      List.take_append_drop, attached, Register.withNodes_withNodes, Register.withNodes_nodes]
  · by_cases came : source = some other
    · subst came
      rw [relink, nodes, store_some_self, drop_attached inside]
      rfl
    · rw [nodes_congr (relink_of_ne differs came)]
      by_cases stored : target = some other
      · subst stored
        have empty : (lists.attach name register position source).nodes other = [] := room
        rw [nodes_congr (attach_of_ne differs), nodes_congr (without_of_ne came)] at empty
        rw [nodes_of_eq_none without_some_self, empty]
      · rw [nodes_congr (without_of_ne stored), nodes_congr (relink_of_ne differs stored),
          nodes_congr (without_of_ne came)]

end Positions

end Lists

namespace Excursion

variable {walk ended : Excursion T} {count : Nat} {steps : List WalkStep}
  {outcome : Except Problem (List (Answer T))}

theorem Walks.advance (inside : walk.position + count < walk.nodes.length)
    (walked : Walks walk (List.replicate count .advance ++ steps) outcome ended) :
    ∃ behind, Walks { walk with position := walk.position + count } steps behind ended ∧
      outcome = behind.map (List.replicate count (.truth true) ++ ·) := by
  induction count generalizing walk outcome with
  | zero => exact ⟨outcome, walked, (congrFun Except.map_id outcome).symm⟩
  | succ count ih =>
    rw [List.replicate_succ, List.cons_append] at walked
    cases walked with
    | go first later =>
      cases first
      obtain ⟨behind, walked, rfl⟩ := ih (by simp only; omega) later
      refine ⟨behind, ?_, ?_⟩
      · rwa [Nat.add_right_comm] at walked
      · cases behind <;> rfl
    | passed last => omega

theorem Keeps.advance (keeps : { walk with position := walk.position + count }.Keeps steps) :
    walk.Keeps (List.replicate count .advance ++ steps) := by
  induction count generalizing walk with
  | zero => exact keeps
  | succ count ih =>
    refine ⟨rfl, fun answer between first => ?_⟩
    cases first
    apply ih
    rwa [Nat.add_right_comm]

theorem Walks.of_link {source target : Option String}
    (walked : Walks walk [.link source target] outcome ended) :
    outcome = .ok [.ofTail (walk.nodes.drop (walk.position + 1))] ∧
      ended = walk.relinked (walk.lists.source source) target (walk.lists.without source) := by
  cases walked with
  | go first later =>
    cases first
    cases later
    exact ⟨rfl, rfl⟩

theorem Walks.of_splitOff {target : Option String}
    (walked : Walks walk [.splitOff target] outcome ended) :
    outcome = .ok [.ofTail (walk.nodes.drop (walk.position + 1))] ∧
      ended = walk.relinked [] target walk.lists := by
  cases walked with
  | go first later =>
    cases first
    cases later
    exact ⟨rfl, rfl⟩

end Excursion

variable [Parent π]

/-- An operation that links other nodes behind a position and hands back those that stood there. -/
structure Op.Relinks (op : Op T π) (lists : Lists T) (name : String) (register : Register T)
    (position : Nat) (source target : Option String) (reply : Reply T) : Prop where
  keeps : (lists.attach name register position source).HasRoom
    (register.nodes.drop (position + 1)) target → lists.Keeps op
  acts : ∀ given after, Lists.Acts op lists given after →
    given = reply ∧ after = lists.relink name register position source target

namespace Op

variable {lists : Lists T} {name : String} {register : Register T} {position : Nat}
  {source : Option String}

theorem Relinks.keepsAll {op : Op T π} {target : Option String} {reply : Reply T}
    {ops : List (Op T π)} (relinks : op.Relinks lists name register position source target reply)
    (room : (lists.attach name register position source).HasRoom
      (register.nodes.drop (position + 1)) target)
    (behind : (lists.relink name register position source target).KeepsAll ops) :
    lists.KeepsAll (op :: ops) := by
  refine ⟨relinks.keeps room, fun given after acts => ?_⟩
  obtain ⟨-, rfl⟩ := relinks.acts given after acts
  exact behind

theorem relinks_link (found : lists name = some register)
    (inside : position < register.nodes.length) (apart : source ≠ some name)
    (target : Option String) :
    Relinks (.link name position source target : Op T π) lists name register position source target
      (.answer (.ofTail (register.nodes.drop (position + 1)))) where
  keeps room _ _ same _ := by
    obtain rfl := Option.some.inj (found.symm.trans same)
    exact room
  acts given after acts := by
    have some : position < (lists.nodes name).length := by
      rwa [Lists.nodes, found]
    cases acts with
    | read reads => cases reads
    | bookkeeping other => exact other.elim
    | link _ same _ =>
      obtain rfl := Option.some.inj (found.symm.trans same)
      exact ⟨rfl, rfl⟩
    | link_none impossible =>
      rcases impossible with same | outside
      · exact absurd same apart
      · exact absurd some (Nat.not_lt.2 outside)

theorem relinks_unlink (found : lists name = some register)
    (inside : position < register.nodes.length) (target : Option String) :
    Relinks (.unlink name position target : Op T π) lists name register position none target
      (.answer (.ofTail (register.nodes.drop (position + 1)))) where
  keeps room _ same _ := by
    obtain rfl := Option.some.inj (found.symm.trans same)
    exact room
  acts given after acts := by
    have some : position < (lists.nodes name).length := by
      rwa [Lists.nodes, found]
    cases acts with
    | read reads => cases reads
    | bookkeeping other => exact other.elim
    | unlink same _ =>
      obtain rfl := Option.some.inj (found.symm.trans same)
      rw [Lists.relink, Lists.attach_none]
      exact ⟨rfl, rfl⟩
    | unlink_none outside => exact absurd some (Nat.not_lt.2 outside)

/-- A walk to a position and a step there that links other nodes behind it. -/
theorem relinks_walk (found : lists name = some register)
    (inside : position < register.nodes.length) (apart : source ≠ some name)
    {target : Option String} {step : WalkStep}
    (keeps : ∀ walk : Excursion T,
      (target = none → walk.nodes.drop (walk.position + 1) = []) → walk.Keeps [step])
    (links : ∀ (walk : Excursion T) outcome ended, Excursion.Walks walk [step] outcome ended →
      outcome = .ok [.ofTail (walk.nodes.drop (walk.position + 1))] ∧
        ended = walk.relinked (walk.lists.source source) target (walk.lists.without source)) :
    Relinks (.walk name (List.replicate position .advance ++ [step]) : Op T π) lists name register
      position source target (.answers (List.replicate position (.truth true) ++
        [.ofTail (register.nodes.drop (position + 1))])) := by
  have walks : ∀ outcome ended,
      Excursion.Walks ⟨register.nodes, 0, lists.clear name, []⟩
        (List.replicate position .advance ++ [step]) outcome ended →
      outcome = .ok (List.replicate position (.truth true) ++
          [.ofTail (register.nodes.drop (position + 1))]) ∧
        ended = Excursion.relinked ⟨register.nodes, position, lists.clear name, []⟩
          (lists.source source) target ((lists.clear name).without source) := by
    intro outcome ended walked
    obtain ⟨behind, arrived, rfl⟩ := walked.advance (by rwa [Nat.zero_add])
    simp only [Nat.zero_add] at arrived
    obtain ⟨rfl, rfl⟩ := links _ _ _ arrived
    refine ⟨rfl, ?_⟩
    have away : (lists.clear name).source source = lists.source source := by
      cases source with
      | none => rfl
      | some place =>
        exact Lists.nodes_congr (Lists.clear_of_ne fun same => apart (congrArg some same))
    rw [away]
  have attached : ((lists.clear name).without source).set name
      (register.withNodes (register.nodes.take (position + 1) ++ lists.source source)) =
        lists.attach name register position source := by
    cases source with
    | none => exact Function.update_idem _ _ _
    | some place =>
      have differs : name ≠ place := fun same => apart (congrArg some same.symm)
      rw [Lists.without, Lists.clear, Lists.clear, Function.update_comm differs]
      exact Function.update_idem _ _ _
  refine ⟨fun room other found' _ => ?_, fun given after acts => ?_⟩
  · obtain rfl := Option.some.inj (found.symm.trans found')
    refine ⟨Excursion.Keeps.advance (keeps _ ?_), fun outcome ended walked => ?_⟩
    · rintro rfl
      have empty : register.nodes.drop (position + 1) = [] := room
      rwa [Nat.zero_add]
    · obtain ⟨-, rfl⟩ := walks outcome ended walked
      simp only [Excursion.relinked, attached, List.nil_append]
      cases target with
      | none => exact trivial
      | some place => exact ⟨room, trivial⟩
  · cases acts with
    | read reads => cases reads
    | bookkeeping other => exact other.elim
    | walk found' _ walked =>
      obtain rfl := Option.some.inj (found.symm.trans found')
      obtain ⟨rfl, rfl⟩ := walks _ _ walked
      refine ⟨rfl, ?_⟩
      simp only [Excursion.relinked, attached, List.nil_append]
      cases target <;> rfl
    | walk_none empty =>
      rw [Lists.nodes, found] at empty
      rw [show register.nodes = [] from empty] at inside
      exact absurd inside (Nat.not_lt_zero _)

theorem relinks_walk_link (found : lists name = some register)
    (inside : position < register.nodes.length) (apart : source ≠ some name)
    (target : Option String) :
    Relinks (.walk name (List.replicate position .advance ++ [.link source target]) : Op T π) lists
      name register position source target (.answers (List.replicate position (.truth true) ++
        [.ofTail (register.nodes.drop (position + 1))])) := by
  refine relinks_walk found inside apart (fun walk room => ⟨?_, fun _ _ _ => trivial⟩)
    fun _ _ _ => Excursion.Walks.of_link
  cases target with
  | none => exact room rfl
  | some place => rfl

theorem relinks_walk_splitOff (found : lists name = some register)
    (inside : position < register.nodes.length) (target : Option String) :
    Relinks (.walk name (List.replicate position .advance ++ [.splitOff target]) : Op T π) lists
      name register position none target (.answers (List.replicate position (.truth true) ++
        [.ofTail (register.nodes.drop (position + 1))])) := by
  have apart : (none : Option String) ≠ some name := nofun
  refine relinks_walk found inside apart (fun walk room => ⟨?_, fun _ _ _ => trivial⟩)
    fun _ _ _ => Excursion.Walks.of_splitOff
  cases target with
  | none => exact room rfl
  | some place => rfl

end Op

/-- One machine has come from another by changes that have been taken back: the store and the
memory are the same, and so is the list under a name and the nodes under every other one. -/
structure Machine.Restored (name : String) (before after : Machine T π) : Prop where
  store : after.store = before.store
  memory : after.memory = before.memory
  view : after.view name = before.view name
  others : ∀ lists, before.Shows lists →
    ∃ lists', after.Shows lists' ∧ ∀ other, lists'.nodes other = lists.nodes other

/-- One operation takes back what another has done to the list under a name. -/
def Machine.Reverses (machine : Machine T π) (name : String) (first : Op T π) (reply : Reply T)
    (second : Op T π) (returned : Reply T) : Prop :=
  ∃ between after, machine.perform first = .ok (reply, between) ∧
    between.perform second = .ok (returned, after) ∧ machine.Restored name after

namespace Represents

variable {machine : Machine T π} {session : Session T π} {name : String} {register : Register T}
  {position : Nat} {source target : Option String} {reply returned : Reply T}

theorem relinks (represents : Represents 0 machine session) {op : Op T π}
    (relinks : op.Relinks session.lists name register position source target reply)
    (room : (session.lists.attach name register position source).HasRoom
      (register.nodes.drop (position + 1)) target) :
    ∃ after later, machine.perform op = .ok (reply, after) ∧ Represents 0 after later ∧
      later.lists = session.lists.relink name register position source target ∧
      later.store = session.store := by
  have keeps := relinks.keeps room
  have quiet := Session.quiet_perform keeps
  obtain ⟨after, performed, onward⟩ := represents.performs_one keeps
  obtain ⟨same, lists⟩ := relinks.acts _ _ (session.conforms_perform op quiet.calm)
  rw [same] at performed
  exact ⟨after, _, performed, onward, lists, quiet.store⟩

/-- To link what was handed back takes a link back. -/
theorem reverses (represents : Represents 0 machine session)
    (found : session.lists name = some register) (inside : position < register.nodes.length)
    (apart : source ≠ some name)
    (room : (session.lists.attach name register position source).HasRoom
      (register.nodes.drop (position + 1)) target) {first second : Op T π}
    (forth : first.Relinks session.lists name register position source target reply)
    (back : second.Relinks (session.lists.relink name register position source target) name
      (session.lists.attached register position source) position target source returned) :
    machine.Reverses name first reply second returned := by
  obtain ⟨between, middle, performed, onward, lists, store⟩ := represents.relinks forth room
  rw [← lists] at back
  have room' := Lists.room_relink room apart
  rw [← lists, ← Lists.drop_attached inside] at room'
  obtain ⟨after, later, taken, represents', lists', store'⟩ := onward.relinks back room'
  obtain ⟨here, others⟩ := Lists.relink_relink inside room apart
  rw [← lists, ← lists'] at here others
  have nodes : ∀ other, later.lists.nodes other = session.lists.nodes other := by
    intro other
    by_cases differs : other = name
    · subst differs
      exact Lists.nodes_congr (here.trans found.symm)
    · exact others other differs
  refine ⟨between, after, performed, taken, ?_, ?_, ?_, fun lists shows => ?_⟩
  · exact represents'.store.trans ((store'.trans store).trans represents.store.symm)
  · exact represents'.memory_eq represents nodes
  · rw [represents'.view_eq, represents.view_eq, here, found]
  · refine ⟨later.lists, represents'.shows, fun other => ?_⟩
    have same : lists = session.lists := funext fun name =>
      Except.ok.inj ((shows.met name).symm.trans (represents.view_eq name))
    rw [same]
    exact nodes other

/-- To rearrange is to keep, and can be undone. Whatever sequence of operations drops no node, it
goes through, the store stays as it is, and so do the nodes of all lists together. And what a single
link hands back, or a single cut, can be linked in again: what was linked comes back, and the lists
are as they were. -/
theorem census_perm_and_reverses (represents : Represents 0 machine session) :
    (∀ ops : List (Op T π), session.lists.KeepsAll ops → ∃ replies after nodes nodes',
      machine.performAll ops = .ok (replies, after) ∧ (∀ reply ∈ replies, reply.IsCalm) ∧
      after.store = machine.store ∧ machine.census = .ok nodes ∧ after.census = .ok nodes' ∧
      nodes'.Perm nodes ∧ ∃ lists, Lists.Run session.lists ops replies lists ∧ after.Shows lists) ∧
    ∀ name register position source target, machine.view name = .ok (some register) →
      position < register.nodes.length → source ≠ some name →
      (session.lists.attach name register position source).HasRoom
        (register.nodes.drop (position + 1)) target →
      let cut : Answer T := .ofTail (register.nodes.drop (position + 1))
      let linked : Answer T := .ofTail (session.lists.source source)
      let advances := List.replicate position WalkStep.advance
      let advanced := List.replicate position (Answer.truth true)
      machine.Reverses name (.link name position source target) (.answer cut)
        (.link name position target source) (.answer linked) ∧
      machine.Reverses name (.walk name (advances ++ [.link source target]))
        (.answers (advanced ++ [cut])) (.walk name (advances ++ [.link target source]))
        (.answers (advanced ++ [linked])) ∧
      (source = none →
        machine.Reverses name (.unlink name position target) (.answer cut)
          (.link name position target none) (.answer .nothing) ∧
        machine.Reverses name (.walk name (advances ++ [.splitOff target]))
          (.answers (advanced ++ [cut])) (.walk name (advances ++ [.link target none]))
          (.answers (advanced ++ [.nothing]))) := by
  refine ⟨fun ops keeps => ?_,
    fun name register position source target met inside apart room => ?_⟩
  · obtain ⟨replies, after, later, ran, represents', run, calm, store, owned⟩ :=
      represents.performs_keeping keeps
    obtain ⟨nodes, counted, whole⟩ := represents.census_eq
    obtain ⟨nodes', counted', whole'⟩ := represents'.census_eq
    refine ⟨replies, after, nodes, nodes', ran, calm, ?_, counted, counted', ?_, later.lists, run,
      represents'.shows⟩
    · exact represents'.store.trans (store.trans represents.store.symm)
    · rw [← Multiset.coe_eq_coe, whole, whole', owned]
  · have found : session.lists name = some register := represents.found_register met
    have found' := Lists.relink_self inside room
    have inside' : position < (session.lists.attached register position source).nodes.length :=
      Lists.inside_attached inside
    have apart' := Lists.target_ne_of_room inside room
    have handed : (session.lists.attached register position source).nodes.drop (position + 1) =
        session.lists.source source := Lists.drop_attached inside
    have back := Op.relinks_link (π := π) found' inside' apart' source
    have back_walk := Op.relinks_walk_link (π := π) found' inside' apart' source
    rw [handed] at back back_walk
    refine ⟨represents.reverses found inside apart room
        (Op.relinks_link found inside apart target) back,
      represents.reverses found inside apart room
        (Op.relinks_walk_link found inside apart target) back_walk, ?_⟩
    rintro rfl
    exact ⟨represents.reverses found inside apart room
        (Op.relinks_unlink found inside target) back,
      represents.reverses found inside apart room
        (Op.relinks_walk_splitOff found inside target) back_walk⟩

/-- Of two lists with nodes of two ledgers, one is linked into the other, and what is cut off there
is moved on; or the link is taken back. -/
theorem census_perm_and_reverses_fork :
    let before : List (Op .fork Arena) := [.chain "list" .attempt (some (1 : Fin 3)) [1, 2, 3],
      .chain "more" .attempt (some (2 : Fin 3)) [4, 5]]
    let ops : List (Op .fork Arena) := [.link "list" 0 (some "more") (some "rest"),
      .move "rest" (some "kept")]
    let start : Machine .fork Arena := Machine.opened (.opened (fun _ => some 5) (.ofCapacity 4096))
    ∃ given machine replies after nodes nodes',
      Machine.performAll before start = .ok (given, machine) ∧
      machine.performAll ops = .ok (replies, after) ∧ after.store = machine.store ∧
      machine.census = .ok nodes ∧ after.census = .ok nodes' ∧ nodes'.Perm nodes ∧
      machine.Reverses "list" (.link "list" 0 (some "more") (some "rest"))
        (.answer (.values [2, 3])) (.link "list" 0 (some "rest") (some "more"))
        (.answer (.values [4, 5])) := by
  intro before ops start
  let register : Register .fork := .chain ⟨[⟨4144, 1, some (1 : Fin 3)⟩,
    ⟨4120, 2, some (1 : Fin 3)⟩, ⟨4096, 3, some (1 : Fin 3)⟩], some (1 : Fin 3)⟩
  let more : Register .fork :=
    .chain ⟨[⟨4192, 4, some (2 : Fin 3)⟩, ⟨4168, 5, some (2 : Fin 3)⟩], some (2 : Fin 3)⟩
  have lasting : start.answersAll (fun reply => reply.isAbort = false) before = true := by
    decide +kernel
  obtain ⟨given, machine, reached, survived⟩ := Machine.exists_of_answersAll lasting
  have checked : (match Machine.performAll before start with
      | .ok (_, machine) => decide (machine.view "list" = .ok (some register) ∧
          machine.view "more" = .ok (some more) ∧ machine.view "rest" = .ok none ∧
          machine.view "kept" = .ok none)
      | .error _ => false) = true := by decide +kernel
  rw [reached] at checked
  obtain ⟨met, more_met, rest_met, kept_met⟩ := of_decide_eq_true checked
  obtain ⟨session, represents⟩ := Machine.exists_represents reached survived
  have found : session.lists "list" = some register := represents.found_register met
  have source : session.lists.nodes "more" = more.nodes := by
    rw [Lists.nodes, show session.lists "more" = some more from represents.found_register more_met]
  have rest : session.lists "rest" = none := represents.found_register rest_met
  have kept : session.lists "kept" = none := represents.found_register kept_met
  have apart : some "more" ≠ some "list" := by decide
  have room : (session.lists.attach "list" register 0 (some "more")).HasRoom
      (register.nodes.drop 1) (some "rest") := by
    refine Lists.nodes_of_eq_none ?_
    rw [Lists.attach_of_ne (by decide), Lists.without_of_ne (by decide), rest]
  have keeps : session.lists.KeepsAll ops := by
    refine (Op.relinks_link found (by decide) apart _).keepsAll room ⟨?_, fun _ _ _ => trivial⟩
    refine Lists.nodes_of_eq_none ?_
    rw [Lists.clear_of_ne (by decide), Lists.relink_of_ne (by decide) (by decide),
      Lists.without_of_ne (by decide), kept]
  obtain ⟨keeping, reversing⟩ := represents.census_perm_and_reverses
  obtain ⟨replies, after, nodes, nodes', ran, -, store, counted, counted', perm, -⟩ :=
    keeping ops keeps
  obtain ⟨reverses, -⟩ := reversing "list" register 0 (some "more") (some "rest") met (by decide)
    apart room
  refine ⟨given, machine, replies, after, nodes, nodes', reached, ran, store, counted, counted',
    perm, ?_⟩
  rw [Lists.source, source] at reverses
  exact reverses

end Represents

end ChainLedger
