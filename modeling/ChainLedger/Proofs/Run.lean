import ChainLedger.Machine.Run
import ChainLedger.Proofs.Simulation

set_option autoImplicit false

namespace ChainLedger

variable {T : Layering} {π : Type}

theorem Represents.opened (store : Store T π) :
    Represents 0 (Machine.opened store) (Session.opened store) :=
  ⟨rfl, rfl, Memory.holds_empty⟩

theorem Represents.clearEvents {machine : Machine T π} {session : Session T π}
    (represents : Represents 0 machine session) :
    Represents 0 machine.clearEvents session.clearEvents := by
  rw [Machine.clearEvents, Machine.store, represents.store]
  exact represents.withStore _

variable [Parent π]

/-- No operation of these ended the run. -/
def Survived (replies : List (Reply T)) : Prop :=
  ∀ reply ∈ replies, reply.isAbort = false

namespace Session

variable {direct : Prop}

theorem performAll_cons {op : Op T π} {session : Session T π}
    (survived : (session.perform op).1.isAbort = false) (ops : List (Op T π)) :
    session.performAll (op :: ops) =
      ((session.perform op).1 :: ((session.perform op).2.performAll ops).1,
        ((session.perform op).2.performAll ops).2) := by
  simp only [performAll, survived, Bool.false_eq_true, ↓reduceIte]

theorem survived_cons {op : Op T π} {ops : List (Op T π)} {session : Session T π}
    (survived : Survived (session.performAll (op :: ops)).1) :
    (session.perform op).1.isAbort = false ∧
      Survived ((session.perform op).2.performAll ops).1 := by
  cases first : (session.perform op).1.isAbort with
  | true =>
    simp only [performAll, first, ↓reduceIte] at survived
    have lasting := survived _ List.mem_cons_self
    rw [first] at lasting
    cases lasting
  | false =>
    rw [performAll_cons first] at survived
    exact ⟨rfl, (List.forall_mem_cons.1 survived).2⟩

/-- A run is traffic, and every fault that is reported was found on the way. -/
theorem accounts_performAll (ops : List (Op T π)) (session : Session T π)
    (allowed : ∀ op ∈ ops, op.IsDirect → direct) (survived : Survived (session.performAll ops).1) :
    ∃ faults, Traffic direct session.store session.owned faults (session.performAll ops).2.store
        (session.performAll ops).2.owned ∧
      ∀ reply ∈ (session.performAll ops).1, ∀ fault, reply.fault? = some fault →
        fault ∈ faults := by
  induction ops generalizing session with
  | nil => exact ⟨[], .still, List.forall_mem_nil _⟩
  | cons op ops ih =>
    obtain ⟨first, rest⟩ := survived_cons survived
    obtain ⟨permitted, allowed⟩ := List.forall_mem_cons.1 allowed
    obtain ⟨found, here, blamed⟩ := session.balanced_perform op permitted first
    obtain ⟨later, onward, named⟩ := ih _ allowed rest
    rw [performAll_cons first]
    refine ⟨found ++ later, here.trans onward, List.forall_mem_cons.2 ⟨?_, ?_⟩⟩
    · intro fault same
      exact List.mem_append_left _ (blamed fault same)
    · exact fun reply member fault same =>
        List.mem_append_right _ (named reply member fault same)

end Session

/-- Whether all operations are performed, each with a reply of a certain kind. -/
def Machine.answersAll (kind : Reply T → Prop) [DecidablePred kind] (ops : List (Op T π))
    (machine : Machine T π) : Bool :=
  match machine.performAll ops with
  | .ok (replies, _) => replies.all fun reply => decide (kind reply)
  | .error _ => false

theorem Machine.exists_of_answersAll {kind : Reply T → Prop} [DecidablePred kind]
    {ops : List (Op T π)} {machine : Machine T π} (answered : answersAll kind ops machine = true) :
    ∃ replies after, performAll ops machine = .ok (replies, after) ∧
      ∀ reply ∈ replies, kind reply := by
  unfold answersAll at answered
  split at answered
  · next replies after ran =>
    refine ⟨replies, after, ran, fun reply member => ?_⟩
    exact of_decide_eq_true (List.all_eq_true.1 answered reply member)
  · cases answered

section Simulation

variable {careless : Prop} {machine : Machine T π} {session : Session T π}

structure RunMatches (expected : List (Reply T) × Session T π)
    (result : List (Reply T) × Machine T π) : Prop where
  replies : result.1 = expected.1
  store : result.2.store = expected.2.store
  represents : Survived expected.1 → Represents 0 result.2 expected.2

theorem Careful.traffic {store after : Store T π} {held left : Multiset (Node T)}
    {faults : List Fault} (careful : Careful careless store held)
    (traffic : Traffic False store held faults after left) : Careful careless after left := by
  induction traffic with
  | still => exact careful
  | go move _ ih => exact ih (careful.move move)

theorem Careful.perform (careful : Careful careless session.store session.owned) {op : Op T π}
    (allowed : careless ∨ ¬ op.IsDirect) (survived : (session.perform op).1.isAbort = false) :
    Careful careless (session.perform op).2.store (session.perform op).2.owned := by
  rcases allowed with waived | listed
  · exact Or.inl waived
  · obtain ⟨_, traffic, _⟩ := session.balanced_perform op listed survived
    exact careful.traffic traffic

theorem Represents.performAll_outcome (represents : Represents 0 machine session)
    (careful : Careful careless session.store session.owned) (ops : List (Op T π))
    (allowed : ∀ op ∈ ops, careless ∨ ¬ op.IsDirect) :
    Outcome careless (RunMatches (session.performAll ops)) (machine.performAll ops) := by
  induction ops generalizing machine session with
  | nil => exact .ok ⟨rfl, represents.store, fun _ => represents⟩
  | cons op ops ih =>
    obtain ⟨here, later⟩ := List.forall_mem_cons.1 allowed
    apply (represents.perform_outcome careful op).bind
    rintro ⟨reply, after⟩ performed
    obtain ⟨rfl, store, kept⟩ := performed
    cases survived : (session.perform op).1.isAbort with
    | true =>
      simp only [Session.performAll, survived, ↓reduceIte, pure_eq_ok]
      refine .ok ⟨rfl, store, fun all => ?_⟩
      have lasting := all _ List.mem_cons_self
      rw [survived] at lasting
      cases lasting
    | false =>
      simp only [Session.performAll_cons survived, survived, Bool.false_eq_true, ↓reduceIte]
      apply (ih (kept survived) (careful.perform here survived) later).bind
      rintro ⟨replies, left⟩ ran
      obtain ⟨rfl, store, whole⟩ := ran
      exact .ok ⟨rfl, store, fun all => whole (List.forall_mem_cons.1 all).2⟩

theorem Careful.of_parent_eq {store after : Store T π} {held : Multiset (Node T)}
    (careful : Careful careless store held) (same : after.parent = store.parent) :
    Careful careless after held :=
  careful.imp_right fun fresh =>
    ⟨same ▸ fresh.parent, fun node member => same ▸ fresh.spent node member⟩

theorem Careful.clearEvents (careful : Careful careless session.store session.owned) :
    Careful careless session.clearEvents.store session.clearEvents.owned :=
  careful.of_parent_eq rfl

theorem Careful.serve (careful : Careful careless session.store session.owned)
    {request : Except Problem (Op T π)}
    (allowed : ∀ op, request = .ok op → careless ∨ ¬ op.IsDirect)
    (survived : (session.serve request).1.isAbort = false) :
    Careful careless (session.serve request).2.store (session.serve request).2.owned := by
  cases request with
  | error problem => exact careful
  | ok op => exact careful.perform (allowed op rfl) survived

theorem Represents.serve_outcome (represents : Represents 0 machine session)
    (careful : Careful careless session.store session.owned)
    (request : Except Problem (Op T π)) :
    Outcome careless (Matches (session.serve request)) (machine.serve request) := by
  cases request with
  | error problem => exact .ok (represents.matched _)
  | ok op => exact represents.perform_outcome careful op

/-- The lists of a machine are given up as those of a session are. -/
theorem close_eq {memory : Memory T} (entries : List (String × Register T)) (store : Store T π)
    (holds : memory.Holds (entries.map fun entry => Tail.records entry.2.nodes).sum) :
    Machine.close (entries.map fun entry => (entry.1, entry.2.holder)) ⟨store, memory⟩ =
      .ok (Session.close entries store) := by
  induction entries generalizing store memory with
  | nil => rfl
  | cons entry rest ih =>
    obtain ⟨name, register⟩ := entry
    rw [List.map_cons, List.sum_cons] at holds
    obtain ⟨left, discarded, kept⟩ := Depot.discard_eq holds store.clearEvents
    have later := ih (Tail.discard register.nodes store.clearEvents).2 kept
    simp only [List.map_cons, Machine.close, Register.first_holder, holds.gather, ok_bind,
      discarded, later, pure_eq_ok, Register.kind_holder]
    rfl

/-- A machine reports on a whole run what the session reports that it represents. -/
theorem Represents.run_outcome (represents : Represents 0 machine session)
    (careful : Careful careless session.store session.owned)
    (requests : List (Except Problem (Op T π)))
    (allowed : ∀ op, .ok op ∈ requests → careless ∨ ¬ op.IsDirect) :
    Outcome careless (· = session.run requests) (machine.run requests) := by
  induction requests generalizing machine session with
  | nil =>
    obtain ⟨⟨store, memory⟩, holders⟩ := machine
    obtain ⟨rfl, rfl, held⟩ := represents
    rw [zero_add] at held
    have sorted : memory.Holds
        (session.registers.ascending.map fun entry => Tail.records entry.2.nodes).sum :=
      held.cast (Directory.sum_ascending _ _).symm
    have closed := close_eq session.registers.ascending session.store sorted
    simp only [Machine.run, Directory.ascending_map, closed, ok_bind, pure_eq_ok]
    exact .ok rfl
  | cons request requests ih =>
    apply (represents.clearEvents.serve_outcome careful.clearEvents request).bind
    rintro ⟨reply, after⟩ served
    obtain ⟨rfl, store, kept⟩ := served
    have events : after.store = _ := store
    simp only [Session.run, events]
    cases survived : (session.clearEvents.serve request).1.isAbort with
    | true =>
      simp only [↓reduceIte, pure_eq_ok]
      exact .ok rfl
    | false =>
      simp only [Bool.false_eq_true, ↓reduceIte]
      have onward := careful.clearEvents.serve
        (fun op same => allowed op (same ▸ List.mem_cons_self)) survived
      refine (ih (kept survived) onward fun op member =>
        allowed op (List.mem_cons_of_mem _ member)).bind fun report ran => ?_
      subst ran
      exact .ok rfl

end Simulation

end ChainLedger
