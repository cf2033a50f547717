import ChainLedger.Zipper
import Mathlib.Algebra.Order.Group.Multiset

/-
Traffic between a store and the nodes held outside of it. A move allocates or frees one node or
leaves the nodes alone; what a list operation does is a row of moves, so what every move keeps is
kept by every operation. An account of an operation is such a row together with the fault that the
operation ends in.
-/

set_option autoImplicit false

namespace ChainLedger

variable {T : Layering} {π : Type}

def Failure.fault? : Failure → Option Fault
  | .fault cause => some cause
  | _ => none

/-- The fault in which a release ends, if it does. -/
def faultOf {α : Type} : Except Fault α → Option Fault
  | .ok _ => none
  | .error fault => some fault

variable [Parent π]

/-- One thing done to a store with the nodes held outside of it, and the fault it ends in. Ledgers
are asked past all nodes only where that is `direct`. -/
inductive Move (direct : Prop) :
    Store T π → Multiset (Node T) → Option Fault → Store T π → Multiset (Node T) → Prop where
  | allocate {demand owner value store after node held}
      (granted : Node.allocate demand owner value store = (.ok node, after)) :
      Move direct store held none after (node ::ₘ held)
  | fail {demand owner value store after failure held}
      (failed : Node.allocate demand owner value store = (.error failure, after)) :
      Move direct store held failure.fault? after held
  | free {node : Node T} {store after fault held} (freed : node.free store = (fault, after)) :
      Move direct store (node ::ₘ held) fault after held
  | abandon {built total store held} :
      Move direct store held none (store.emit (.buildAbandoned built total)) held
  | setBudget {store i budget held} : Move direct store held none (store.setBudget i budget) held
  | request {store after i layout answer held} (allowed : direct)
      (asked : store.allocate (some i) layout = (answer, after)) :
      Move direct store held (match answer with | .ok _ => none | .error failure => failure.fault?)
        after held
  | giveBack {store after i addr layout fault held} (allowed : direct)
      (returned : store.deallocate (some i) addr layout = (fault, after)) :
      Move direct store held fault after held
  | configure {store setting held} (allowed : direct) :
      Move direct store held none (store.configure setting) held

/-- Moves one after the other, with the faults found on the way. -/
inductive Traffic (direct : Prop) :
    Store T π → Multiset (Node T) → List Fault → Store T π → Multiset (Node T) → Prop where
  | still {store held} : Traffic direct store held [] store held
  | go {store held fault between left faults after rest}
      (first : Move direct store held fault between left)
      (later : Traffic direct between left faults after rest) :
      Traffic direct store held (fault.toList ++ faults) after rest

/-- Traffic in which a given fault, if there is one, was found. -/
def Accounts (direct : Prop) (store : Store T π) (held : Multiset (Node T)) (blame : Option Fault)
    (after : Store T π) (left : Multiset (Node T)) : Prop :=
  ∃ faults, Traffic direct store held faults after left ∧
    ∀ fault, blame = some fault → fault ∈ faults

section Combination

variable {direct : Prop} {store between after : Store T π} {held left rest : Multiset (Node T)}
  {fault later : Option Fault}

/-- What is held besides the nodes concerned stays as it is. -/
theorem Move.frame (move : Move direct store held fault after left) (aside : Multiset (Node T)) :
    Move direct store (held + aside) fault after (left + aside) := by
  cases move with
  | allocate granted => rw [Multiset.cons_add]; exact .allocate granted
  | fail failed => exact .fail failed
  | free freed => rw [Multiset.cons_add]; exact .free freed
  | abandon => exact .abandon
  | setBudget => exact .setBudget
  | request allowed asked => exact .request allowed asked
  | giveBack allowed returned => exact .giveBack allowed returned
  | configure allowed => exact .configure allowed

theorem Traffic.frame {faults : List Fault} (traffic : Traffic direct store held faults after left)
    (aside : Multiset (Node T)) :
    Traffic direct store (held + aside) faults after (left + aside) := by
  induction traffic with
  | still => exact .still
  | go first _ ih => exact .go (first.frame aside) ih

theorem Traffic.trans {before following : List Fault}
    (first : Traffic direct store held before between left)
    (second : Traffic direct between left following after rest) :
    Traffic direct store held (before ++ following) after rest := by
  induction first with
  | still => exact second
  | go move _ ih => rw [List.append_assoc]; exact .go move (ih second)

theorem Accounts.refl : Accounts direct store held none store held :=
  ⟨[], .still, fun _ found => nomatch found⟩

theorem Accounts.of_move (move : Move direct store held fault after left) :
    Accounts direct store held fault after left := by
  refine ⟨fault.toList ++ [], .go move .still, fun found same => ?_⟩
  rw [same]
  exact List.mem_cons_self

theorem Accounts.frame (accounts : Accounts direct store held fault after left)
    (aside : Multiset (Node T)) : Accounts direct store (held + aside) fault after (left + aside) :=
  let ⟨faults, traffic, blamed⟩ := accounts
  ⟨faults, traffic.frame aside, blamed⟩

/-- Of two rows of moves in turn the fault of either can be blamed. -/
theorem Accounts.trans {blame : Option Fault}
    (first : Accounts direct store held fault between left)
    (second : Accounts direct between left later after rest)
    (blamed : ∀ found, blame = some found → fault = some found ∨ later = some found) :
    Accounts direct store held blame after rest := by
  obtain ⟨before, moves, foundFirst⟩ := first
  obtain ⟨following, more, foundLater⟩ := second
  refine ⟨before ++ following, moves.trans more, fun found same => List.mem_append.2 ?_⟩
  exact (blamed found same).imp (foundFirst found) (foundLater found)

theorem Accounts.cast {held' left' : Multiset (Node T)}
    (accounts : Accounts direct store held fault after left) (before : held' = held)
    (behind : left = left') : Accounts direct store held' fault after left' :=
  before ▸ behind ▸ accounts

end Combination

section Lists

variable {direct : Prop} {store after : Store T π} {held : Multiset (Node T)}

theorem Tail.accounts_discard (tail : Tail T) (store : Store T π) (held : Multiset (Node T)) :
    Accounts direct store (↑tail + held) (tail.discard store).1 (tail.discard store).2 held := by
  induction tail generalizing store with
  | nil =>
    rw [discard_nil, Multiset.coe_nil, zero_add]
    exact .refl
  | cons node rest ih =>
    rw [discard_cons, ← Multiset.cons_coe, Multiset.cons_add]
    refine (Accounts.of_move (.free rfl)).trans (ih _) fun found same => ?_
    exact (Option.or_eq_some_iff.1 same).imp_right And.right

theorem Tail.accounts_releaseHead {node : Node T} {rest left : Tail T}
    (released : releaseHead node rest store = (.ok left, after)) :
    left = rest ∧ Accounts direct store (node ::ₘ held) none after held := by
  simp only [releaseHead] at released
  split at released
  · next freed =>
    simp only [Prod.mk.injEq, Except.ok.injEq] at released
    obtain ⟨rfl, rfl⟩ := released
    exact ⟨rfl, .of_move (.free freed)⟩
  · simp only [Prod.mk.injEq, reduceCtorEq, false_and] at released

theorem Tail.accounts_releaseHead_fault {node : Node T} {rest : Tail T} {fault : Fault}
    (failed : releaseHead node rest store = (.error fault, after)) :
    Accounts direct store (node ::ₘ (↑rest + held)) (some fault) after held := by
  simp only [releaseHead] at failed
  split at failed
  · simp only [Prod.mk.injEq, reduceCtorEq, false_and] at failed
  · next freed =>
    simp only [Prod.mk.injEq, Except.error.injEq] at failed
    obtain ⟨rfl, rfl⟩ := failed
    exact (Accounts.of_move (.free freed)).trans (rest.accounts_discard _ held)
      fun found same => Or.inl same

theorem Chain.accounts_buildOnto {demand : Demand} {owner : Handle T} {total : Nat}
    {pending : List Int64} {built nodes : Tail T}
    (finished : buildOnto demand owner total pending built store = (.ok nodes, after)) :
    Accounts direct store (↑built + held) none after (↑nodes + held) := by
  induction pending generalizing built store with
  | nil =>
    simp only [buildOnto, Prod.mk.injEq, Except.ok.injEq] at finished
    obtain ⟨rfl, rfl⟩ := finished
    exact .refl
  | cons value pending ih =>
    simp only [buildOnto] at finished
    split at finished
    · next granted =>
      have rest := ih finished
      rw [← Multiset.cons_coe, Multiset.cons_add] at rest
      exact (Accounts.of_move (.allocate granted)).trans rest fun found same => Or.inl same
    · split at finished <;> simp only [Prod.mk.injEq, reduceCtorEq, false_and] at finished
    · simp only [Prod.mk.injEq, reduceCtorEq, false_and] at finished
    · simp only [Prod.mk.injEq, reduceCtorEq, false_and] at finished

/-- A build that fails has freed what it had built, unless the run ends with it. -/
theorem Chain.accounts_buildOnto_error {demand : Demand} {owner : Handle T} {total : Nat}
    {pending : List Int64} {built : Tail T} {failure : Failure}
    (failed : buildOnto demand owner total pending built store = (.error failure, after))
    (survived : ∀ layout, failure ≠ .aborted layout) :
    Accounts direct store (↑built + held) failure.fault? after held := by
  induction pending generalizing built store with
  | nil => simp only [buildOnto, Prod.mk.injEq, reduceCtorEq, false_and] at failed
  | cons value pending ih =>
    simp only [buildOnto] at failed
    split at failed
    · next granted =>
      have rest := ih failed
      rw [← Multiset.cons_coe, Multiset.cons_add] at rest
      exact (Accounts.of_move (.allocate granted)).trans rest fun found same => Or.inr same
    · next between refused =>
      have dropped : Accounts direct _ _ _ _ _ := built.accounts_discard
        (between.emit (.buildAbandoned built.length total)) held
      have emptied := (Accounts.of_move (.fail refused)).trans
        ((Accounts.of_move .abandon).trans dropped fun found same => Or.inr same)
        fun found same => Or.inr same
      split at failed <;>
        · next discarded =>
          simp only [Prod.mk.injEq, Except.error.injEq] at failed
          obtain ⟨rfl, rfl⟩ := failed
          rw [discarded] at emptied
          exact emptied
    · next fault between faulted =>
      simp only [Prod.mk.injEq, Except.error.injEq] at failed
      obtain ⟨rfl, rfl⟩ := failed
      exact (Accounts.of_move (.fail faulted)).trans (built.accounts_discard between held)
        fun found same => Or.inl same
    · next layout _ _ =>
      simp only [Prod.mk.injEq, Except.error.injEq] at failed
      exact absurd failed.1.symm (survived layout)

/-- An editor's release takes one node away, or after a fault also all that follow it. -/
theorem Zipper.accounts_release (zipper : Zipper T) {result : Except Fault Int64} {left : Tail T}
    (released : zipper.release store = (result, left, after)) :
    Accounts direct store (↑zipper.nodes + held)
      (faultOf result) after (↑left + held) := by
  have before : (↑zipper.nodes + held : Multiset (Node T)) =
      zipper.focus ::ₘ (↑zipper.rest + (↑zipper.passed.reverse + held)) := by
    rw [nodes, ← Multiset.coe_add, ← Multiset.cons_coe, Multiset.add_cons, Multiset.cons_add,
      add_comm (↑zipper.passed.reverse : Multiset (Node T)), add_assoc]
  simp only [release] at released
  split at released
  · next rest between granted =>
    simp only [Prod.mk.injEq] at released
    obtain ⟨rfl, rfl, rfl⟩ := released
    obtain ⟨rfl, freed⟩ := Tail.accounts_releaseHead granted
    apply freed.cast before
    rw [← Multiset.coe_add, add_assoc, add_left_comm]
  · next fault between failed =>
    simp only [Prod.mk.injEq] at released
    obtain ⟨rfl, rfl, rfl⟩ := released
    exact (Tail.accounts_releaseHead_fault failed).cast before rfl

end Lists

end ChainLedger
