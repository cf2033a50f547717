import ChainLedger.Proofs.Lists
import ChainLedger.Proofs.Ownership

set_option autoImplicit false

namespace ChainLedger

variable {T : Layering} {π : Type}

/-- The reply to an operation that meets neither a fault nor the end of the run. -/
def Reply.IsCalm (reply : Reply T) : Prop :=
  reply.isAbort = false ∧ reply.fault? = none

instance (reply : Reply T) : Decidable reply.IsCalm :=
  inferInstanceAs (Decidable (_ ∧ _))

theorem Reply.IsCalm.refused {failure : Failure} (calm : (failed failure : Reply T).IsCalm) :
    failure = .refused := by
  cases failure with
  | refused => rfl
  | fault fault => cases calm.2
  | aborted layout => cases calm.1

theorem Reply.IsCalm.of_orFault {reply : Reply T} {fault : Option Fault}
    (calm : (reply.orFault fault).IsCalm) : reply.orFault fault = reply := by
  cases fault with
  | none => rfl
  | some fault =>
    cases reply with
    | failed failure => rfl
    | _ => cases calm.2

section Failures

variable [Parent π] {demand : Demand} {owner : Handle T} {store after : Store T π}

/-- Only an attempt is told that it was refused. -/
theorem Node.attempt_of_refused {value : Int64}
    (failed : Node.allocate demand owner value store = (.error .refused, after)) :
    demand = .attempt := by
  simp only [allocate] at failed
  split at failed
  · simp only [Prod.mk.injEq, reduceCtorEq, false_and] at failed
  · cases demand with
    | attempt => rfl
    | insist => simp only [Demand.onRefusal, Prod.mk.injEq, Except.error.injEq, reduceCtorEq,
        false_and] at failed
  · next other _ =>
    simp only [Prod.mk.injEq, Except.error.injEq] at failed
    exact absurd failed.1 (by intro same; subst same; contradiction)

theorem Chain.attempt_of_buildOnto {total : Nat} {pending : List Int64} {built : Tail T}
    (failed : buildOnto demand owner total pending built store = (.error .refused, after)) :
    demand = .attempt := by
  induction pending generalizing built store with
  | nil => simp only [buildOnto, Prod.mk.injEq, reduceCtorEq, false_and] at failed
  | cons value pending ih =>
    simp only [buildOnto] at failed
    split at failed
    · exact ih failed
    · next between refused => exact Node.attempt_of_refused refused
    · simp only [Prod.mk.injEq, Except.error.injEq, reduceCtorEq, false_and] at failed
    · simp only [Prod.mk.injEq, Except.error.injEq, reduceCtorEq, false_and] at failed

theorem Chain.attempt_of_build {values : List Int64}
    (failed : build demand owner values store = (.error .refused, after)) : demand = .attempt := by
  simp only [build] at failed
  split at failed
  · simp only [Prod.mk.injEq, reduceCtorEq, false_and] at failed
  · next failure between built =>
    simp only [Prod.mk.injEq, Except.error.injEq] at failed
    obtain ⟨rfl, rfl⟩ := failed
    exact attempt_of_buildOnto built

theorem Tail.eq_of_releaseHead {node : Node T} {rest left : Tail T}
    (released : releaseHead node rest store = (.ok left, after)) : left = rest := by
  simp only [releaseHead] at released
  split at released
  · exact (Except.ok.inj (congrArg Prod.fst released)).symm
  · simp only [Prod.mk.injEq, reduceCtorEq, false_and] at released

end Failures

namespace Session

/-- The lists under all names of a session. -/
def lists (session : Session T π) : Lists T :=
  fun name => session.registers.get? name

section Views

variable (session : Session T π) (name : String)

theorem nodes_lists : session.lists.nodes name = session.nodes name := rfl

theorem lists_registers_put (register : Register T) (store : Store T π) :
    (⟨store, session.registers.put name register⟩ : Session T π).lists =
      session.lists.set name register := by
  funext other
  simp only [lists, Lists.set, Function.update_apply, Directory.get?_put, eq_comm]

theorem lists_take : (session.take name).2.lists = session.lists.clear name := by
  funext other
  simp only [lists, take, Lists.clear, Function.update_apply, Directory.get?_erase, eq_comm]

theorem lists_take? (source : Option String) :
    (session.take? source).2.lists = session.lists.without source := by
  cases source with
  | none => rfl
  | some name => exact session.lists_take name

theorem take?_fst (source : Option String) :
    (session.take? source).1 = session.lists.source source := by
  cases source <;> rfl

theorem lists_setNodes {register : Register T} (found : session.lists name = some register)
    (nodes : Tail T) :
    (session.setNodes name nodes).lists = session.lists.set name (register.withNodes nodes) := by
  have there : session.registers.get? name = some register := found
  rw [setNodes, there]
  exact session.lists_registers_put name _ _

theorem isChain_lists {chain : Chain T}
    (found : session.registers.get? name = some (.chain chain)) :
    session.lists.IsChain name :=
  ⟨chain, found⟩

theorem not_isChain_lists
    (other : ∀ chain, session.registers.get? name = some (.chain chain) → False) :
    ¬ session.lists.IsChain name := fun ⟨chain, found⟩ => other chain found

theorem exists_of_cutAfter? {position : Nat} {kept cut : Tail T}
    (found : Tail.cutAfter? position (session.nodes name) = some (kept, cut)) :
    ∃ register, session.lists name = some register ∧ position < register.nodes.length ∧
      kept = register.nodes.take (position + 1) ∧ cut = register.nodes.drop (position + 1) := by
  simp only [Tail.cutAfter?] at found
  split at found
  · next inside =>
    simp only [Option.some.injEq, Prod.mk.injEq] at found
    obtain ⟨rfl, rfl⟩ := found
    simp only [nodes, Registers.nodes] at inside ⊢
    split at inside
    · exact absurd inside (Nat.not_lt_zero _)
    · next register there => exact ⟨register, there, inside, rfl, rfl⟩
  · cases found

theorem length_le_of_cutAfter? {position : Nat}
    (absent : Tail.cutAfter? position (session.nodes name) = none) :
    (session.lists.nodes name).length ≤ position := by
  simp only [Tail.cutAfter?] at absent
  split at absent
  · cases absent
  · next outside => exact Nat.le_of_not_lt outside

theorem isFrontOfChain_iff (position : Nat) :
    session.isFrontOfChain name position = true ↔ position = 0 ∧ session.lists.IsChain name := by
  unfold isFrontOfChain
  split
  · next chain found =>
    simp only [true_and, true_iff]
    exact session.isChain_lists name found
  · next other =>
    simp only [Bool.false_eq_true, false_iff, not_and]
    rintro rfl ⟨chain, found⟩
    exact other chain rfl found

variable [Parent π]

theorem lists_put (register : Register T) :
    (session.put name register).2.lists = session.lists.set name register :=
  session.lists_registers_put name register _

theorem lists_dispose (target : Option String) (tail : Tail T) :
    (session.dispose target tail).2.lists = session.lists.store target tail := by
  cases target with
  | none => rfl
  | some name => exact session.lists_put name _

theorem lists_putAll (aside : List (String × Tail T)) :
    (session.putAll aside).2.lists = session.lists.storeAll aside := by
  induction aside generalizing session with
  | nil => rfl
  | cons entry aside ih =>
    rw [putAll, Lists.storeAll, List.foldl_cons]
    apply (ih _).trans
    rw [lists_put]
    rfl

end Views

section Operations

variable [Parent π]

/-- An operation with a calm reply does what its list equation says. -/
def Conforms (op : Op T π) (session : Session T π) (result : Reply T × Session T π) : Prop :=
  result.1.IsCalm → Lists.Acts op session.lists result.1 result.2.lists

theorem conforms_conclude {op : Op T π} {session : Session T π} {reply : Reply T}
    {result : Option Fault × Session T π} {after : Lists T} (same : result.2.lists = after)
    (acts : reply.IsCalm → Lists.Acts op session.lists reply after) :
    Conforms op session (conclude reply result) := by
  obtain ⟨fault, ended⟩ := result
  intro calm
  have kept : (conclude reply (fault, ended)).1 = reply := calm.of_orFault
  rw [kept] at calm ⊢
  rw [conclude, same]
  exact acts calm

variable (session : Session T π) (name : String)

theorem conforms_node (target : String) (demand : Demand) (owner : Handle T) (value : Int64) :
    Conforms (.node target demand owner value) session
      (session.node target demand owner value) := by
  unfold node
  split
  · next node store granted =>
    obtain ⟨rfl, owned⟩ := Node.of_allocate granted
    exact conforms_conclude (lists_put _ _ _) fun _ => .node rfl owned
  · next failure store failed =>
    intro calm
    obtain rfl := calm.refused
    obtain rfl := Node.attempt_of_refused failed
    exact .node_refused

theorem conforms_chain (target : String) (demand : Demand) (owner : Handle T)
    (values : List Int64) :
    Conforms (.chain target demand owner values) session
      (session.chain target demand owner values) := by
  unfold chain
  split
  · next chain store built =>
    obtain ⟨nodes, kept⟩ := chain
    obtain ⟨held, rfl, owned⟩ := Chain.values_of_build built
    have counted : Chain.length ⟨nodes, kept⟩ = values.length := by
      rw [← held, Chain.values, Tail.values, List.length_map, Chain.length]
    rw [counted]
    exact conforms_conclude (lists_put _ _ _) fun _ => .chain held owned
  · next failure store failed =>
    intro calm
    obtain rfl := calm.refused
    obtain rfl := Chain.attempt_of_build failed
    exact .chain_refused

theorem conforms_empty (target : String) (owner : Handle T) :
    Conforms (.empty target owner) session (session.empty target owner) :=
  conforms_conclude (session.lists_put _ _) fun _ => .empty

theorem conforms_link (position : Nat) (source target : Option String) :
    Conforms (.link name position source target) session
      (session.link name position source target) := by
  simp only [link]
  split
  · next same => exact fun _ => .link_none (Or.inl same)
  · next apart =>
    split
    · next absent =>
      exact fun _ => .link_none (Or.inr (session.length_le_of_cutAfter? name absent))
    · next kept cut found =>
      obtain ⟨register, there, inside, rfl, rfl⟩ := session.exists_of_cutAfter? name found
      have still : (session.take? source).2.lists name = some register := by
        rw [lists_take?]
        cases source with
        | none => exact there
        | some other =>
          rw [Lists.without, Lists.clear, Function.update_of_ne, there]
          intro same
          exact apart (congrArg some same.symm)
      refine conforms_conclude ?_ fun _ => .link apart there inside
      rw [lists_dispose, lists_setNodes _ _ still, lists_take?, take?_fst]

theorem conforms_unlink (position : Nat) (target : Option String) :
    Conforms (.unlink name position target) session (session.unlink name position target) := by
  unfold unlink
  split
  · next absent => exact fun _ => .unlink_none (session.length_le_of_cutAfter? name absent)
  · next kept cut found =>
    obtain ⟨register, there, inside, rfl, rfl⟩ := session.exists_of_cutAfter? name found
    refine conforms_conclude ?_ fun _ => .unlink there inside
    rw [lists_dispose, lists_setNodes _ _ there]

theorem conforms_release (target : Option String) :
    Conforms (.release name target) session (session.release name target) := by
  have cleared := session.lists_take name
  unfold release
  split
  · next left taken =>
    rw [taken] at cleared
    intro _
    rw [cleared]
    exact .release_none (congrArg Prod.fst taken)
  · next node rest left taken =>
    rw [taken] at cleared
    have found : session.lists.nodes name = node :: rest := congrArg Prod.fst taken
    split
    · next behind store released =>
      obtain rfl := Tail.eq_of_releaseHead released
      refine conforms_conclude ?_ fun _ => .release found
      rw [lists_dispose, ← cleared]
      rfl
    · intro calm
      cases calm.refused

theorem conforms_move (target : Option String) :
    Conforms (.move name target) session (session.move name target) := by
  simp only [move]
  split
  · next target =>
    refine conforms_conclude ?_ fun _ => .move
    rw [lists_put, lists_take]
    rfl
  · exact conforms_conclude (session.lists_take name) fun _ => .move_nowhere

theorem conforms_drop : Conforms (.drop name) session (session.drop name) :=
  conforms_conclude (session.lists_take name) fun _ => .drop

theorem conforms_intoHead (target : Option String) :
    Conforms (.intoHead name target) session (session.intoHead name target) := by
  simp only [intoHead]
  split
  · next chain found =>
    refine conforms_conclude ?_ fun _ => .intoHead (session.isChain_lists name found)
    rw [lists_dispose, lists_take]
    rfl
  · next other => exact fun _ => .intoHead_none (session.not_isChain_lists name other)

theorem conforms_pushFront (demand : Demand) (value : Int64) :
    Conforms (.pushFront name demand value) session (session.pushFront name demand value) := by
  unfold pushFront
  split
  · next chain found =>
    unfold Chain.pushFront
    rcases asked : Node.allocate demand chain.owner value session.store with
      ⟨failure | node, store⟩
    · intro calm
      obtain rfl := calm.refused
      obtain rfl := Node.attempt_of_refused asked
      have same : session.lists.set name (.chain chain) = session.lists := by
        rw [Lists.set, ← found]
        exact Function.update_eq_self name session.lists
      simp only [lists_registers_put, same]
      exact .pushFront_refused (session.isChain_lists name found)
    · intro _
      obtain ⟨holds, owned⟩ := Node.of_allocate asked
      simp only [lists_registers_put]
      exact .pushFront found holds owned
  · next other => exact fun _ => .pushFront_none (session.not_isChain_lists name other)

theorem conforms_popFront : Conforms (.popFront name) session (session.popFront name) := by
  unfold popFront
  split
  · next chain found =>
    obtain ⟨nodes, owner⟩ := chain
    cases nodes with
    | nil =>
      intro _
      have same : session.lists.set name (.chain ⟨[], owner⟩) = session.lists := by
        rw [Lists.set, ← found]
        exact Function.update_eq_self name session.lists
      simp only [Chain.popFront, lists_registers_put, same]
      exact .popFront_empty found
    | cons node rest =>
      simp only [Chain.popFront]
      rcases released : Tail.releaseHead node rest session.store with ⟨fault | left, store⟩
      · intro calm
        cases calm.refused
      · obtain rfl := Tail.eq_of_releaseHead released
        intro _
        simp only [lists_registers_put]
        exact .popFront found
  · next other => exact fun _ => .popFront_none (session.not_isChain_lists name other)

end Operations

section Reading

variable [Parent π] (session : Session T π) (name : String) (position : Nat)

theorem reads_inspect :
    Lists.Reads (π := π) session.lists (.inspect name position)
      (session.inspect name position) := by
  unfold inspect
  split
  · next ended => exact .inspect_none (List.drop_eq_nil_iff.1 ended)
  · next node rest here =>
    have node_at : (session.lists.nodes name)[position]? = some node := by
      rw [← List.head?_drop, nodes_lists, here, List.head?_cons]
    have next_at : (session.lists.nodes name)[position + 1]? = rest.head? := by
      rw [← List.head?_drop, ← List.drop_drop, nodes_lists, here, List.drop_one, List.tail_cons]
    rw [NodeReport.ofNode, ← next_at]
    exact .inspect node_at

theorem reads_info :
    Lists.Reads (π := π) session.lists (.info name) (session.info name) := by
  unfold info
  split
  · next chain found => exact .info found
  · next other => exact .info_none (session.not_isChain_lists name other)

theorem reads_render (place : Option Nat) (style : Option Style) :
    Lists.Reads (π := π) session.lists (.render name place style)
      (session.render name place style) := by
  cases place with
  | some position =>
    cases here : (session.nodes name)[position]? with
    | none =>
      simp only [render, here, Option.map_none]
      exact .render_none (List.getElem?_eq_none_iff.1 here)
    | some node =>
      simp only [render, here, Option.map_some]
      cases style with
      | none =>
        refine .unstyled fun index same => ?_
        obtain rfl := Option.mem_some_iff.1 same
        exact (List.getElem?_eq_some_iff.1 here).1
      | some style => exact .render_node here
  | none =>
    have inside : ∀ index ∈ (none : Option Nat), index < (session.lists.nodes name).length := by
      intro index member
      cases member
    have loose : (∀ chain, session.registers.get? name ≠ some (.chain chain)) →
        ∀ style, Lists.Reads (π := π) session.lists (.render name none (some style))
          (.answer (.text (Tail.render style (session.nodes name)))) := by
      intro other style
      apply Lists.Reads.render_loose
      rintro ⟨chain, found⟩
      exact other chain found
    rcases found : session.registers.get? name with _ | tail | chain <;>
      simp only [render, found] <;> cases style
    · exact .unstyled inside
    · exact loose (by simp only [found, ne_eq, reduceCtorEq, not_false_eq_true, implies_true]) _
    · exact .unstyled inside
    · exact loose (by simp only [found, ne_eq, Option.some.injEq, reduceCtorEq, not_false_eq_true,
        implies_true]) _
    · exact .unstyled inside
    · exact .render_chain found

theorem reads_stream (steps : Option (List StreamStep)) :
    Lists.Reads (π := π) session.lists (.stream name position steps)
      (session.stream name position steps) := by
  simp only [stream]
  split
  · next outside =>
    simp only [Bool.and_eq_true, List.isEmpty_iff, List.drop_eq_nil_iff, Bool.not_eq_true',
      ← Bool.not_eq_true, isFrontOfChain_iff] at outside
    exact .stream_none outside.1 outside.2
  · next inside =>
    have inside : position < (session.lists.nodes name).length ∨
        position = 0 ∧ session.lists.IsChain name := by
      rw [← isFrontOfChain_iff, ← Nat.not_le, ← List.drop_eq_nil_iff, ← List.isEmpty_iff,
        nodes_lists]
      simpa only [Bool.and_eq_true, Bool.not_eq_true', not_and, Bool.not_eq_false,
        ← Decidable.imp_iff_not_or] using inside
    cases steps with
    | none => exact .unread_stream inside
    | some steps => exact .stream inside

theorem reads_cursor (steps : Option (List CursorStep)) :
    Lists.Reads (π := π) session.lists (.cursor name position steps)
      (session.cursor name position steps) := by
  unfold cursor
  rcases here : (session.nodes name).drop position with _ | ⟨node, rest⟩
  · have outside : (session.lists.nodes name).length ≤ position := List.drop_eq_nil_iff.1 here
    simp only [Cursor.ofTail?]
    split
    · next front =>
      obtain ⟨rfl, chain⟩ := (session.isFrontOfChain_iff name position).1 front
      exact .cursor_empty chain here
    · next front =>
      rw [isFrontOfChain_iff] at front
      exact .cursor_none outside front
  · unfold Cursor.ofTail?
    cases steps with
    | none =>
      refine .unread_cursor ?_
      rw [← Nat.not_le, ← List.drop_eq_nil_iff, nodes_lists, here]
      exact List.cons_ne_nil _ _
    | some steps =>
      have looked : Lists.Reads (π := π) session.lists (.cursor name position (some steps)) _ :=
        .cursor here
      simp only
      split
      · next answers same =>
        rw [same] at looked
        exact looked
      · next problem same =>
        rw [same] at looked
        exact looked

end Reading

end Session

section Walking

def Zipper.excursion (zipper : Zipper T) (session : Session T π)
    (aside : List (String × Tail T)) : Excursion T :=
  ⟨zipper.nodes, zipper.passed.length, session.lists, aside.reverse⟩

namespace Zipper

variable (zipper : Zipper T)

theorem getElem?_nodes : zipper.nodes[zipper.passed.length]? = some zipper.focus := by
  rw [nodes, List.getElem?_append_right (by rw [List.length_reverse]), List.length_reverse,
    Nat.sub_self, List.getElem?_cons_zero]

theorem drop_nodes : zipper.nodes.drop (zipper.passed.length + 1) = zipper.rest := by
  rw [← List.drop_drop, nodes, List.drop_left' List.length_reverse]
  rfl

theorem take_nodes :
    zipper.nodes.take (zipper.passed.length + 1) = zipper.passed.reverse ++ [zipper.focus] := by
  rw [nodes, List.append_cons, List.take_left' (by
    rw [List.length_append, List.length_reverse, List.length_singleton])]

theorem length_nodes : zipper.nodes.length = zipper.passed.length + 1 + zipper.rest.length := by
  rw [nodes, List.length_append, List.length_reverse, List.length_cons]
  omega

theorem next_nodes : zipper.nodes[zipper.passed.length + 1]? = zipper.rest.head? := by
  rw [← List.head?_drop, drop_nodes]

theorem eraseIdx_nodes :
    zipper.nodes.eraseIdx zipper.passed.length = zipper.passed.reverse ++ zipper.rest := by
  rw [List.eraseIdx_eq_take_drop_succ, drop_nodes, nodes, List.take_left' List.length_reverse]

/-- Other nodes behind the zipper are other nodes behind its position. -/
theorem relinked_excursion (successors : Tail T) (target : Option String)
    (session others : Session T π) (aside : List (String × Tail T)) :
    (zipper.excursion session aside).relinked successors target others.lists =
      (zipper.link successors).2.excursion others
        ((target.toList.map fun name => (name, zipper.rest)) ++ aside) := by
  have kept := zipper.take_nodes
  have cut := zipper.drop_nodes
  simp only [Excursion.relinked, excursion, kept, cut, link]
  cases target <;>
    simp only [nodes, Option.toList_none, Option.toList_some, List.map_nil, List.map_cons,
      List.nil_append, List.append_nil, List.cons_append, List.reverse_cons, List.append_assoc]

/-- The zipper at the next node is at the next position, which is in the list. -/
theorem excursion_of_advance? {moved : Zipper T} (found : zipper.advance? = some moved)
    (session : Session T π) (aside : List (String × Tail T)) :
    moved.excursion session aside =
        { zipper.excursion session aside with position := zipper.passed.length + 1 } ∧
      zipper.passed.length + 1 < zipper.nodes.length := by
  obtain ⟨whole, further⟩ := nodes_of_advance? found
  refine ⟨?_, ?_⟩
  · simp only [excursion, whole, further, List.length_cons]
  · rw [← whole, length_nodes, further, List.length_cons]
    omega

theorem length_of_advance? (ended : zipper.advance? = none) :
    zipper.passed.length + 1 = zipper.nodes.length := by
  simp only [advance?] at ended
  split at ended
  · next last => rw [length_nodes, last, List.length_nil, Nat.add_zero]
  · cases ended

theorem eq_of_release [Parent π] {store after : Store T π} {value : Int64} {left : Tail T}
    (released : zipper.release store = (.ok value, left, after)) :
    value = zipper.focus.value ∧ left = zipper.nodes.eraseIdx zipper.passed.length := by
  simp only [release] at released
  split at released
  · next behind _ freed =>
    simp only [Prod.mk.injEq, Except.ok.injEq] at released
    obtain ⟨rfl, rfl, -⟩ := released
    rw [Tail.eq_of_releaseHead freed, eraseIdx_nodes]
    exact ⟨rfl, rfl⟩
  · simp only [Prod.mk.injEq, reduceCtorEq, false_and] at released

end Zipper

/-- A walk that ended with a calm reply went step by step as a walk by position goes. `answers` are
those given before, newest first. -/
def WalkEnd.Conforms (walk : Excursion T) (steps : List WalkStep) (answers : List (Answer T))
    (ended : WalkEnd T π) : Prop :=
  ended.reply.IsCalm → ∃ outcome position,
    ended.reply = .ofOutcome (outcome.map (answers.reverse ++ ·)) ∧
      Excursion.Walks walk steps outcome
        ⟨ended.left, position, ended.session.lists, ended.aside⟩

theorem WalkEnd.Conforms.go {walk between : Excursion T} {step : WalkStep} {steps : List WalkStep}
    {answer : Answer T} {answers : List (Answer T)} {ended : WalkEnd T π}
    (later : ended.Conforms between steps (answer :: answers))
    (first : Excursion.Steps step walk answer between) :
    ended.Conforms walk (step :: steps) answers := by
  intro calm
  obtain ⟨outcome, position, reply, walked⟩ := later calm
  refine ⟨outcome.map (answer :: ·), position, ?_, .go first walked⟩
  rw [reply]
  cases outcome with
  | error problem => rfl
  | ok given =>
    simp only [Except.map, List.reverse_cons, List.append_assoc, List.singleton_append]

variable [Parent π]

theorem Zipper.conforms_link {steps : List WalkStep} (source target : Option String)
    (step : WalkStep) (answers : List (Answer T)) (aside : List (String × Tail T))
    (zipper : Zipper T) (session : Session T π)
    (behind : ∀ answers aside (zipper : Zipper T) (session : Session T π),
      (zipper.walk answers aside session steps).Conforms (zipper.excursion session aside) steps
        answers)
    (first : Excursion.Steps step (zipper.excursion session aside) (.ofTail zipper.rest)
      ((zipper.excursion session aside).relinked (session.lists.source source) target
        (session.lists.without source))) :
    (zipper.walk answers aside session (.link source target :: steps)).Conforms
      (zipper.excursion session aside) (step :: steps) answers := by
  have lists := session.lists_take? source
  have nodes := session.take?_fst source
  rcases taken : session.take? source with ⟨successors, others⟩
  rw [taken] at lists nodes
  simp only at lists nodes
  rw [← lists, ← nodes] at first
  simp only [walk, taken]
  rw [relinked_excursion] at first
  cases target with
  | some name => exact (behind _ _ _ _).go first
  | none =>
    simp only
    split
    · next between discarded =>
      have same : between.lists = others.lists :=
        congrArg (fun result => result.2.lists) discarded.symm
      have onward : (zipper.link successors).2.excursion between aside =
          (zipper.link successors).2.excursion others aside := by
        rw [excursion, excursion, same]
      apply (behind _ _ _ _).go
      rw [onward]
      exact first
    · intro calm
      cases calm.refused

theorem Zipper.conforms_walk (steps : List WalkStep) (answers : List (Answer T))
    (aside : List (String × Tail T)) (zipper : Zipper T) (session : Session T π) :
    (zipper.walk answers aside session steps).Conforms (zipper.excursion session aside) steps
      answers := by
  induction steps generalizing answers aside zipper session with
  | nil => 
    intro _
    refine ⟨.ok [], zipper.passed.length, ?_, .done⟩
    simp only [walk, Reply.ofOutcome, Except.map, List.append_nil]
  | cons step steps ih =>
    have here := zipper.getElem?_nodes
    cases step with
    | value => exact (ih _ _ _ _).go (.value here)
    | terminal =>
      apply (ih _ _ _ _).go
      have last : zipper.isTerminal = (zipper.passed.length + 1 == zipper.nodes.length) := by
        rw [Bool.eq_iff_iff, isTerminal, List.isEmpty_iff, beq_iff_eq, length_nodes,
          ← List.length_eq_zero_iff]
        omega
      rw [last]
      exact .terminal
    | valueAndNext =>
      apply (ih _ _ _ _).go
      rw [← next_nodes]
      exact .valueAndNext here
    | next =>
      apply (ih _ _ _ _).go
      rw [← next_nodes]
      exact .next
    | owner => exact (ih _ _ _ _).go (.owner here)
    | render style =>
      cases style with
      | none => exact fun _ => ⟨.error .badInput, _, rfl, .unstyled⟩
      | some style => exact (ih _ _ _ _).go (.render here)
    | advance =>
      unfold walk
      split
      · next moved found =>
        obtain ⟨further, inside⟩ := zipper.excursion_of_advance? found session aside
        apply (ih _ _ _ _).go
        rw [further]
        exact .advance inside
      · next ended =>
        refine fun _ => ⟨.ok [.nothing], zipper.passed.length, ?_,
          .passed (zipper.length_of_advance? ended)⟩
        simp only [Reply.ofOutcome, Except.map, List.reverse_cons]
    | release =>
      unfold walk
      split
      · next value left store released =>
        obtain ⟨rfl, rfl⟩ := zipper.eq_of_release released
        refine fun _ => ⟨.ok [.value zipper.value], zipper.passed.length, ?_, .release here⟩
        simp only [Reply.ofOutcome, Except.map, List.reverse_cons, value]
      · intro calm
        cases calm.refused
    | splitOff target =>
      rw [walk_splitOff]
      apply zipper.conforms_link none target _ answers aside session ih
      rw [← zipper.drop_nodes]
      exact .splitOff
    | link source target =>
      apply zipper.conforms_link source target _ answers aside session ih
      rw [← zipper.drop_nodes]
      exact .link
    | unrecognised => exact (ih _ _ _ _).go .unrecognised

end Walking

namespace Session

variable [Parent π] (session : Session T π)

theorem conforms_walk (name : String) (steps : List WalkStep) :
    Conforms (.walk name steps) session (session.walk name steps) := by
  simp only [walk]
  split
  · next absent =>
    refine fun _ => .walk_none ?_
    rw [nodes_lists, nodes, Registers.nodes, absent]
  · next register found =>
    split
    · next absent =>
      refine fun _ => .walk_none ?_
      rw [nodes_lists, nodes, Registers.nodes, found]
      rcases same : register.nodes with _ | ⟨node, rest⟩
      · exact same
      · rw [same] at absent
        cases absent
    · next zipper place =>
      obtain ⟨whole, front⟩ := Zipper.nodes_of_ofTail? place
      have away := session.lists_take name
      have followed := Zipper.conforms_walk steps [] [] zipper
        ⟨session.store, session.registers.erase name⟩
      generalize zipper.walk [] [] ⟨session.store, session.registers.erase name⟩ steps = ended
        at followed ⊢
      obtain ⟨reply, left, aside, walked⟩ := ended
      have back := walked.lists_registers_put name (register.withNodes left) walked.store
      refine conforms_conclude (lists_putAll _ _) fun calm => ?_
      obtain ⟨outcome, position, same, walks⟩ := followed calm
      have start : zipper.excursion
          (⟨session.store, session.registers.erase name⟩ : Session T π) [] =
            ⟨register.nodes, 0, session.lists.clear name, []⟩ := by
        rw [Zipper.excursion, whole, front, ← away]
        rfl
      rw [start] at walks
      have given : outcome.map (([] : List (Answer T)).reverse ++ ·) = outcome := by
        cases outcome <;> rfl
      have some : register.nodes ≠ [] := by
        rw [← whole, Zipper.nodes]
        exact List.append_ne_nil_of_right_ne_nil _ (List.cons_ne_nil _ _)
      have acts := Lists.Acts.walk (π := π) found some walks
      rw [back, show reply = _ from same, given]
      exact acts

/-- Every operation with a calm reply does what its list equation says. -/
theorem conforms_perform (op : Op T π) : Conforms op session (session.perform op) := by
  cases op with
  | node target demand owner value => exact session.conforms_node target demand owner value
  | chain target demand owner values => exact session.conforms_chain target demand owner values
  | empty target owner => exact session.conforms_empty target owner
  | inspect name position => exact fun _ => .read (session.reads_inspect name position)
  | link name position source target => exact session.conforms_link name position source target
  | unlink name position target => exact session.conforms_unlink name position target
  | release name target => exact session.conforms_release name target
  | move name target => exact session.conforms_move name target
  | drop name => exact session.conforms_drop name
  | intoHead name target => exact session.conforms_intoHead name target
  | pushFront name demand value => exact session.conforms_pushFront name demand value
  | popFront name => exact session.conforms_popFront name
  | info name => exact fun _ => .read (session.reads_info name)
  | values name => exact fun _ => .read .values
  | render name position style => exact fun _ => .read (session.reads_render name position style)
  | stream name position steps => exact fun _ => .read (session.reads_stream name position steps)
  | cursor name position steps => exact fun _ => .read (session.reads_cursor name position steps)
  | walk name steps => exact session.conforms_walk name steps
  | setBudget i budget => exact fun _ => .bookkeeping trivial
  | ledger i => exact fun _ => .bookkeeping trivial
  | renderLedger i style => exact fun _ => .bookkeeping trivial
  | isLive i addr => exact fun _ => .bookkeeping trivial
  | allocate i layout =>
    simp only [perform, allocate]
    split <;> exact fun _ => .bookkeeping trivial
  | deallocate i addr layout => exact fun _ => .bookkeeping trivial
  | exchange i addr held wanted =>
    simp only [perform, exchange]
    split <;> exact fun _ => .bookkeeping trivial
  | configure setting => exact fun _ => .bookkeeping trivial

end Session

end ChainLedger
