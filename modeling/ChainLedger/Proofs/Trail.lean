import ChainLedger.Proofs.Discipline
import ChainLedger.Proofs.Parallel
import ChainLedger.Proofs.Refinement

/-
Trails: the replies of a run, each with the state behind it. A trail passes through the same steps
as `run` and keeps the lists too, which a report does not. Two trails are compared step by step: as
long as the second parent does not run out of memory, sessions that go together stay together
(`Comparison.Preserved.serve`).
-/

set_option autoImplicit false

namespace ChainLedger

variable {T T' : Layering} {π π' : Type}

/-- A request was turned down for lack of memory, and no budget is to blame. -/
def RanOut (reply : Reply T) (store : Store T π) : Prop :=
  (reply = .failed .refused ∨ reply.isAbort = true) ∧ ¬ store.Refusing

instance (reply : Reply T) (store : Store T π) : Decidable (RanOut reply store) :=
  inferInstanceAs (Decidable (_ ∧ _))

/-- What holds of the replies and stores of a machine's trail holds of the session's. -/
theorem Matches.forall_left (good : Reply T → Store T π → Prop)
    {expected : List (Reply T × Session T π)} {results : List (Reply T × Machine T π)}
    (matched : List.Forall₂ Matches expected results)
    (all : ∀ result ∈ results, good result.1 result.2.store) :
    ∀ result ∈ expected, good result.1 result.2.store := by
  induction matched with
  | nil => exact List.forall_mem_nil _
  | cons here _ ih =>
    obtain ⟨first, rest⟩ := List.forall_mem_cons.1 all
    rw [here.reply, here.store] at first
    exact List.forall_mem_cons.2 ⟨first, ih rest⟩

theorem Matches.forall₂ {same : Reply T × Session T π → Reply T' × Session T' π' → Prop}
    {alike : Reply T × Machine T π → Reply T' × Machine T' π' → Prop}
    (carried : ∀ {expected expected' result result'}, Matches expected result →
      same expected expected' → Matches expected' result' → alike result result')
    {expected : List (Reply T × Session T π)} {expected' : List (Reply T' × Session T' π')}
    {results : List (Reply T × Machine T π)} {results' : List (Reply T' × Machine T' π')}
    (matched : List.Forall₂ Matches expected results)
    (sames : List.Forall₂ same expected expected')
    (matched' : List.Forall₂ Matches expected' results') :
    List.Forall₂ alike results results' := by
  induction sames generalizing results results' with
  | nil =>
    cases matched
    cases matched'
    exact .nil
  | cons here _ ih =>
    obtain _ | ⟨first, matched⟩ := matched
    obtain _ | ⟨first', matched'⟩ := matched'
    exact .cons (carried first here first') (ih matched matched')

section Trails

variable [Parent π]

/-- The replies to requests served in order, each with the session behind it, until the requests are
used up or the run is aborted. -/
def Session.trail : List (Except Problem (Op T π)) → Session T π → List (Reply T × Session T π)
  | [], _ => []
  | request :: requests, session =>
      match session.clearEvents.serve request with
      | (reply, after) =>
          if reply.isAbort then
            [(reply, after)]
          else
            (reply, after) :: trail requests after

theorem Session.trail_cons (request : Except Problem (Op T π))
    (requests : List (Except Problem (Op T π))) (session : Session T π) :
    session.trail (request :: requests) = session.clearEvents.serve request ::
      if (session.clearEvents.serve request).1.isAbort then []
      else (session.clearEvents.serve request).2.trail requests := by
  simp only [trail]
  split <;> rfl

theorem Session.length_trail_le (requests : List (Except Problem (Op T π)))
    (session : Session T π) :
    (session.trail requests).length ≤ requests.length := by
  induction requests generalizing session with
  | nil => exact Nat.le_refl _
  | cons request requests ih =>
    rw [trail_cons, List.length_cons, List.length_cons]
    refine Nat.succ_le_succ ?_
    split
    · exact Nat.zero_le _
    · exact ih _

theorem Session.length_trail {requests : List (Except Problem (Op T π))} {session : Session T π}
    (survived : ∀ result ∈ session.trail requests, result.1.isAbort = false) :
    (session.trail requests).length = requests.length := by
  induction requests generalizing session with
  | nil => rfl
  | cons request requests ih =>
    rw [trail_cons] at survived ⊢
    obtain ⟨here, rest⟩ := List.forall_mem_cons.1 survived
    rw [here] at rest ⊢
    exact congrArg Nat.succ (ih rest)

/-- The replies to requests served in order, each with the machine behind it, until the requests are
used up or the run is aborted. -/
def Machine.trail : List (Except Problem (Op T π)) → Machine T π →
    Except Hazard (List (Reply T × Machine T π))
  | [], _ => .ok []
  | request :: requests, machine => do
      let (reply, after) ← machine.clearEvents.serve request
      if reply.isAbort then
        return [(reply, after)]
      else
        return (reply, after) :: (← trail requests after)

def Machine.trailAll (kind : Reply T → Store T π → Prop)
    [∀ reply store, Decidable (kind reply store)]
    (requests : List (Except Problem (Op T π))) (machine : Machine T π) : Bool :=
  match machine.trail requests with
  | .ok results => results.all fun result => decide (kind result.1 result.2.store)
  | .error _ => false

theorem Machine.exists_of_trailAll {kind : Reply T → Store T π → Prop}
    [∀ reply store, Decidable (kind reply store)] {requests : List (Except Problem (Op T π))}
    {machine : Machine T π} (went : machine.trailAll kind requests = true) :
    ∃ results, machine.trail requests = .ok results ∧
      ∀ result ∈ results, kind result.1 result.2.store := by
  unfold trailAll at went
  split at went
  · next results same =>
    exact ⟨results, same, fun result member =>
      of_decide_eq_true (List.all_eq_true.1 went result member)⟩
  · cases went

theorem Machine.trail_of_served {request : Except Problem (Op T π)}
    {requests : List (Except Problem (Op T π))} {machine after : Machine T π} {reply : Reply T}
    (served : machine.clearEvents.serve request = .ok (reply, after))
    (lasting : reply.isAbort = false) :
    machine.trail (request :: requests) =
      (trail requests after).map (List.cons (reply, after)) := by
  rw [trail, served, ok_bind]
  simp only [lasting, Bool.false_eq_true, ↓reduceIte]
  cases trail requests after <;> rfl

theorem Machine.trail_cons_ok {request : Except Problem (Op T π)}
    {requests : List (Except Problem (Op T π))} {machine : Machine T π}
    {results : List (Reply T × Machine T π)}
    (went : machine.trail (request :: requests) = .ok results) :
    ∃ reply after later, machine.clearEvents.serve request = .ok (reply, after) ∧
      results = (reply, after) :: later ∧
      (reply.isAbort = false → trail requests after = .ok later) := by
  simp only [trail] at went
  obtain ⟨⟨reply, after⟩, served, rest⟩ := exists_of_bind_eq_ok went
  split at rest
  · next aborted =>
    cases rest
    refine ⟨reply, after, [], served, rfl, fun survived => ?_⟩
    rw [survived] at aborted
    cases aborted
  · obtain ⟨later, followed, same⟩ := exists_of_bind_eq_ok rest
    cases same
    exact ⟨reply, after, later, served, rfl, fun _ => followed⟩

/-- A machine that leaves the same trail in serving as many other requests reports the same. -/
theorem Machine.run_congr {requests others : List (Except Problem (Op T π))}
    {machine : Machine T π} {results : List (Reply T × Machine T π)}
    (many : requests.length = others.length)
    (went : machine.trail requests = .ok results) (went' : machine.trail others = .ok results) :
    machine.run requests = machine.run others := by
  induction requests generalizing others machine results with
  | nil =>
    obtain rfl := List.length_eq_zero_iff.1 many.symm
    rfl
  | cons request requests ih =>
    obtain _ | ⟨other, others⟩ := others
    · cases many
    · obtain ⟨reply, after, later, served, rfl, onward⟩ := trail_cons_ok went
      obtain ⟨_, _, _, served', ⟨⟩, onward'⟩ := trail_cons_ok went'
      simp only [run, served, served', ok_bind]
      cases ended : reply.isAbort with
      | true => rfl
      | false =>
        have same := ih (Nat.succ.inj many) (onward ended) (onward' ended)
        simp only [Bool.false_eq_true, ↓reduceIte, same]

/-- A machine leaves the trail of the session that it represents. -/
theorem Represents.trail_outcome {careless : Prop} {machine : Machine T π} {session : Session T π}
    (represents : Represents 0 machine session)
    (careful : Careful careless session.store session.owned)
    (requests : List (Except Problem (Op T π)))
    (allowed : ∀ op, .ok op ∈ requests → careless ∨ ¬ op.IsDirect) :
    Outcome careless (List.Forall₂ Matches (session.trail requests)) (machine.trail requests) := by
  induction requests generalizing machine session with
  | nil => exact .ok .nil
  | cons request requests ih =>
    apply (represents.clearEvents.serve_outcome careful.clearEvents request).bind
    rintro ⟨reply, after⟩ served
    have matched := served
    obtain ⟨rfl, store, kept⟩ := served
    simp only [Session.trail]
    cases survived : (session.clearEvents.serve request).1.isAbort with
    | true =>
      simp only [↓reduceIte, pure_eq_ok]
      exact .ok (.cons matched .nil)
    | false =>
      simp only [Bool.false_eq_true, ↓reduceIte]
      have onward := careful.clearEvents.serve
        (fun op same => allowed op (same ▸ List.mem_cons_self)) survived
      refine (ih (kept survived) onward fun op member =>
        allowed op (List.mem_cons_of_mem _ member)).bind fun results followed => ?_
      exact .ok (.cons matched followed)

/-- Over a parent that grants no address twice every machine leaves a trail, unless something is
asked past the lists. -/
theorem Machine.exists_trail (budgets : Fin T.size → Option Nat) {parent : π}
    (fresh : Parent.NeverReuses parent) {requests : List (Except Problem (Op T π))}
    (listed : ∀ op, .ok op ∈ requests → ¬ op.IsDirect) :
    ∃ results, (opened (.opened budgets parent)).trail requests = .ok results ∧
      List.Forall₂ Matches ((Session.opened (.opened budgets parent)).trail requests) results :=
  ((Represents.opened _).trail_outcome
    (Or.inr (Sound.opened fresh budgets).fresh : Careful False _ _)
    requests fun op member => Or.inr (listed op member)).exists_ok

/-- Over such a parent a machine reports what the session reports that knows its nodes. -/
theorem Machine.run_eq (budgets : Fin T.size → Option Nat) {parent : π}
    (fresh : Parent.NeverReuses parent) {requests : List (Except Problem (Op T π))}
    (listed : ∀ op, .ok op ∈ requests → ¬ op.IsDirect) :
    (opened (.opened budgets parent)).run requests =
      .ok ((Session.opened (.opened budgets parent)).run requests) := by
  obtain ⟨report, ran, rfl⟩ := ((Represents.opened _).run_outcome
    (Or.inr (Sound.opened fresh budgets).fresh : Careful False _ _)
    requests fun op member => Or.inr (listed op member)).exists_ok
  exact ran

/-- On sound books no request meets a fault, and the books stay sound unless the run is aborted. -/
theorem Sound.serve {session : Session T π} (sound : Sound session.store session.owned)
    {request : Except Problem (Op T π)} (listed : ∀ op, request = .ok op → ¬ op.IsDirect) :
    (session.serve request).1.fault? = none ∧
      ((session.serve request).1.isAbort = false →
        Sound (session.serve request).2.store (session.serve request).2.owned) := by
  cases request with
  | error problem => exact ⟨rfl, fun _ => sound⟩
  | ok op =>
    cases survived : ((session.serve (.ok op)).1).isAbort with
    | true =>
      refine ⟨?_, nofun⟩
      generalize (session.serve (.ok op)).1 = reply at survived
      cases reply with
      | failed failure =>
        cases failure with
        | aborted layout => rfl
        | _ => cases survived
      | _ => rfl
    | false =>
      obtain ⟨after, quiet⟩ :=
        sound.accounts (session.balanced_perform op (listed op rfl) survived)
      exact ⟨quiet, fun _ => after⟩

theorem Sound.cleared {session : Session T π} (sound : Sound session.store session.owned) :
    Sound session.clearEvents.store session.clearEvents.owned :=
  sound.clearEvents

end Trails

section Pairs

theorem Op.not_isDirect_of_recast [Parent π] [Parent π'] {owner : Handle T → Handle T'}
    {op : Op T π} {op' : Op T' π'} (meant : op.recast owner = .ok op') :
    ¬ op.IsDirect ∧ ¬ op'.IsDirect := by
  cases op with
  | allocate | deallocate | exchange | configure | setBudget | ledger | renderLedger | isLive =>
    cases meant
  | _ => cases meant; exact ⟨id, id⟩

namespace Comparison

variable (comparison : Comparison T T' π π') (mine : String → Prop)

inductive Serves [Parent π] [Parent π'] :
    Except Problem (Op T π) → Except Problem (Op T' π') → Prop where
  | problem {problem} : Serves (.error problem) (.error problem)
  | op {op op'} (meant : op.recast comparison.owner = .ok op')
      (named : ∀ name ∈ op.names, mine name)
      (allowed : ∀ owner ∈ op.owners, comparison.Allowed owner) : Serves (.ok op) (.ok op')

/-- Two results that go together, for addresses met by then and perhaps more. -/
def Matching (met : Nat → Nat → Prop) (first : Reply T × Session T π)
    (second : Reply T' × Session T' π') : Prop :=
  ∃ now, now ≤ met ∧ comparison.Sessions mine now first.2 second.2 ∧
    ∀ addr, Renames now addr → second.1 = (comparison.relabelling addr).reply first.1

variable {comparison mine} {met : Nat → Nat → Prop} {session : Session T π}
  {session' : Session T' π'}

theorem Matching.mono {later : Nat → Nat → Prop} {first : Reply T × Session T π}
    {second : Reply T' × Session T' π'} (matching : comparison.Matching mine met first second)
    (grown : met ≤ later) : comparison.Matching mine later first second := by
  obtain ⟨now, before, rest⟩ := matching
  exact ⟨now, before.trans grown, rest⟩

theorem Directories.get?_eq {registers : Registers T} {registers' : Registers T'}
    (directories : comparison.Directories mine met registers registers') {addr : Nat → Nat}
    (renames : Renames met addr) {name : String} (named : mine name) :
    registers'.get? name = (registers.get? name).map (comparison.relabelling addr).register := by
  have here := directories name named
  generalize registers.get? name = found at here ⊢
  generalize registers'.get? name = found' at here ⊢
  cases here with
  | none => rfl
  | some contents => exact congrArg some (contents.register_eq renames)

theorem Sessions.lists_eq (sessions : comparison.Sessions mine met session session')
    {addr : Nat → Nat} (renames : Renames met addr) {name : String} (named : mine name) :
    session'.lists name = (session.lists name).map (comparison.relabelling addr).register :=
  sessions.directories.get?_eq renames named

variable [Parent π] [Parent π']

theorem Sessions.clearEvents (sessions : comparison.Sessions mine met session session')
    (preserved : comparison.Preserved) :
    comparison.Sessions mine met session.clearEvents session'.clearEvents :=
  ⟨preserved.clear sessions.stores, sessions.directories⟩

theorem Serves.listed {request : Except Problem (Op T π)} {request' : Except Problem (Op T' π')}
    (serves : comparison.Serves mine request request') :
    (∀ op, request = .ok op → ¬ op.IsDirect) ∧ ∀ op, request' = .ok op → ¬ op.IsDirect := by
  cases serves with
  | problem => exact ⟨nofun, nofun⟩
  | op meant _ _ =>
    obtain ⟨listed, listed'⟩ := Op.not_isDirect_of_recast meant
    exact ⟨fun _ same => Except.ok.inj same ▸ listed, fun _ same => Except.ok.inj same ▸ listed'⟩

/-- Sessions that go together serve a request alike, unless the second parent runs out. -/
theorem Preserved.serve (preserved : comparison.Preserved)
    (sessions : comparison.Sessions mine met session session')
    (sound : Sound session.store session.owned) (sound' : Sound session'.store session'.owned)
    {request : Except Problem (Op T π)} {request' : Except Problem (Op T' π')}
    (serves : comparison.Serves mine request request')
    (supplied : ¬ RanOut (session'.clearEvents.serve request').1
      (session'.clearEvents.serve request').2.store) :
    comparison.Agrees mine met (session.clearEvents.serve request)
      (session'.clearEvents.serve request') := by
  have quiet := (sound.cleared.serve serves.listed.1).1
  have quiet' := (sound'.cleared.serve serves.listed.2).1
  have cleared := sessions.clearEvents preserved
  cases serves with
  | problem => exact agrees_same cleared fun _ _ => rfl
  | op meant named allowed =>
    refine preserved.perform cleared meant named allowed
      ⟨quiet, quiet', Store.not_refusing_clearEvents _, fun failure failed => ?_⟩
    refine not_not.1 fun unrefused => supplied ⟨?_, unrefused⟩
    rw [Session.serve, failed] at quiet' ⊢
    cases failure with
    | refused => exact Or.inl rfl
    | fault fault => cases quiet'
    | aborted layout => exact Or.inr rfl

end Comparison

end Pairs

end ChainLedger
