import ChainLedger.Proofs.Conformance
import ChainLedger.Proofs.Resemblance

set_option autoImplicit false

namespace ChainLedger

variable {T : Layering} {π : Type} {name : String}

namespace Lists

variable {lists : Lists T}

theorem set_of_ne {other : String} (off : name ≠ other) (register : Register T) :
    lists.set other register name = lists name :=
  Function.update_of_ne off _ _

theorem clear_of_ne {other : String} (off : name ≠ other) : lists.clear other name = lists name :=
  Function.update_of_ne off _ _

theorem store_of_not_mem {target : Option String} (off : name ∉ target.toList) (tail : Tail T) :
    lists.store target tail name = lists name := by
  cases target with
  | none => rfl
  | some other => exact set_of_ne (List.ne_of_not_mem_cons off) _

theorem without_of_not_mem {source : Option String} (off : name ∉ source.toList) :
    lists.without source name = lists name := by
  cases source with
  | none => rfl
  | some other => exact clear_of_ne (List.ne_of_not_mem_cons off)

theorem storeAll_of_not_mem {aside : List (String × Tail T)}
    (off : ∀ entry ∈ aside, name ≠ entry.1) : lists.storeAll aside name = lists name := by
  induction aside generalizing lists with
  | nil => rfl
  | cons entry aside ih =>
    obtain ⟨here, off⟩ := List.forall_mem_cons.1 off
    exact (ih off).trans (set_of_ne here _)

end Lists

namespace Excursion

/-- A walk that is under way will do nothing to the list under a name. -/
def Spares (walk : Excursion T) (lists : Lists T) (name : String) : Prop :=
  walk.lists name = lists name ∧ ∀ entry ∈ walk.aside, name ≠ entry.1

theorem Spares.step {lists : Lists T} {step : WalkStep} {walk after : Excursion T}
    {answer : Answer T} (spares : walk.Spares lists name) (off : name ∉ step.names)
    (steps : Steps step walk answer after) : after.Spares lists name := by
  have relinked {successors : Tail T} {target : Option String} {others : Lists T}
      (kept : others name = lists name) (away : name ∉ target.toList) :
      (walk.relinked successors target others).Spares lists name := by
    refine ⟨kept, fun entry member => ?_⟩
    rcases List.mem_append.1 member with member | member
    · exact spares.2 entry member
    · obtain ⟨other, found, rfl⟩ := List.mem_map.1 member
      exact fun same => away (same ▸ found)
  cases steps with
  | splitOff => exact relinked spares.1 off
  | link =>
    have away := mt List.mem_append.2 off
    rw [not_or] at away
    exact relinked ((Lists.without_of_not_mem away.1).trans spares.1) away.2
  | _ => exact spares

theorem Spares.walks {lists : Lists T} {steps : List WalkStep} {walk ended : Excursion T}
    {outcome : Except Problem (List (Answer T))} (spares : walk.Spares lists name)
    (off : name ∉ steps.flatMap WalkStep.names) (walks : Walks walk steps outcome ended) :
    ended.Spares lists name := by
  induction walks with
  | done => exact spares
  | go first _ ih =>
    rw [List.flatMap_cons, List.mem_append, not_or] at off
    exact ih (spares.step off.1 first) off.2
  | passed => exact spares
  | release => exact spares
  | unstyled => exact spares

end Excursion

variable [Parent π]

/-- An operation leaves the list alone under a name that it does not mention. -/
theorem Lists.Acts.eq_of_not_mem {op : Op T π} {lists after : Lists T} {reply : Reply T}
    (acts : Acts op lists reply after) (off : name ∉ op.names) : after name = lists name := by
  cases acts with
  | node | chain | empty | pushFront | popFront =>
    exact set_of_ne (List.ne_of_not_mem_cons off) _
  | release_none | move_nowhere | drop => exact clear_of_ne (List.ne_of_not_mem_cons off)
  | link =>
    obtain ⟨here, others⟩ := List.ne_and_not_mem_of_not_mem_cons off
    obtain ⟨sources, targets⟩ := not_or.1 (mt List.mem_append.2 others)
    exact (store_of_not_mem targets _).trans
      ((set_of_ne here _).trans (without_of_not_mem sources))
  | unlink =>
    obtain ⟨here, targets⟩ := List.ne_and_not_mem_of_not_mem_cons off
    exact (store_of_not_mem targets _).trans (set_of_ne here _)
  | release =>
    obtain ⟨here, targets⟩ := List.ne_and_not_mem_of_not_mem_cons off
    exact (store_of_not_mem targets _).trans (clear_of_ne here)
  | intoHead =>
    obtain ⟨here, targets⟩ := List.ne_and_not_mem_of_not_mem_cons off
    exact (store_of_not_mem targets _).trans (clear_of_ne here)
  | move =>
    obtain ⟨here, targets⟩ := List.ne_and_not_mem_of_not_mem_cons off
    exact (set_of_ne (List.ne_of_not_mem_cons targets) _).trans (clear_of_ne here)
  | walk found some walked =>
    obtain ⟨here, others⟩ := List.ne_and_not_mem_of_not_mem_cons off
    obtain ⟨kept, aside⟩ :=
      Excursion.Spares.walks ⟨clear_of_ne here, List.forall_mem_nil _⟩ others walked
    exact (storeAll_of_not_mem aside).trans ((set_of_ne here _).trans kept)
  | _ => rfl

/-- An operation leaves the register alone under a name that it does not mention. -/
theorem Session.get?_perform_of_not_mem {session : Session T π} {op : Op T π}
    (calm : (session.perform op).1.IsCalm) (off : name ∉ op.names) :
    (session.perform op).2.registers.get? name = session.registers.get? name :=
  (session.conforms_perform op calm).eq_of_not_mem off

end ChainLedger
