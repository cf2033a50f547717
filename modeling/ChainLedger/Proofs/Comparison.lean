import ChainLedger.Proofs.Ownership
import ChainLedger.Proofs.Relabelling
import ChainLedger.Proofs.Request
import Mathlib.Data.List.Forall2
import Mathlib.Order.Basic

/-
Two sessions side by side. They work at other addresses, perhaps with other allocators, and each
request for a record meets the same outcome in both. Then every list operation has the same reply
in both, up to a relabelling, and leaves registers with the same contents
(`Comparison.Preserved.perform`). What it takes for requests to meet the same outcome is left to
the stores: a comparison is given by a relation between these that allocations, releases and build
reports preserve.
-/

set_option autoImplicit false

namespace ChainLedger

def Event.isRefusal : Event → Bool
  | .requestRefused _ => true
  | _ => false

/-- Whether a request has been turned away for a spent budget since the events were last cleared. -/
def Store.Refusing {T : Layering} {π : Type} (store : Store T π) : Prop :=
  ∃ event ∈ store.trace, event.isRefusal = true

instance {T : Layering} {π : Type} (store : Store T π) : Decidable store.Refusing :=
  inferInstanceAs (Decidable (∃ event ∈ store.trace, event.isRefusal = true))

namespace Store

variable {T : Layering} {π : Type} {store : Store T π}

theorem not_refusing_clearEvents (store : Store T π) : ¬ store.clearEvents.Refusing := by
  simp only [Refusing, clearEvents, List.not_mem_nil, false_and, exists_false, not_false_eq_true]

theorem refusing_congr {after : Store T π} (trace : after.trace = store.trace) :
    after.Refusing ↔ store.Refusing := by
  rw [Refusing, trace, Refusing]

theorem refusing_emit (event : Event) :
    (store.emit event).Refusing ↔ event.isRefusal = true ∨ store.Refusing := by
  simp only [Refusing, emit, List.mem_cons, exists_eq_or_imp]

variable [Parent π]

theorem refusing_free (node : Node T) : (node.free store).2.Refusing ↔ store.Refusing := by
  simp only [Refusing, Node.trace_free, List.mem_cons, exists_eq_or_imp, Event.isRefusal,
    Bool.false_eq_true, false_or]

theorem refusing_discard (tail : Tail T) :
    (Tail.discard tail store).2.Refusing ↔ store.Refusing := by
  induction tail generalizing store with
  | nil => rfl
  | cons node rest ih => rw [Tail.discard_cons, ih, refusing_free]

theorem refusing_granted {after : Store T π} {demand : Demand} {owner : Handle T} {value : Int64}
    {node : Node T} (granted : Node.allocate demand owner value store = (.ok node, after)) :
    after.Refusing ↔ store.Refusing := by
  obtain ⟨between, asked, rfl⟩ := Node.granted_of_allocate granted
  obtain ⟨-, trace, -⟩ := allocateAlong_ok owner.path_nodup asked
  rw [refusing_emit, refusing_congr trace]
  exact or_iff_right nofun

end Store

/-- How two systems are compared: where the allocators and layouts of the first are found in the
second, which allocators are used, and which stores go together once certain pairs of addresses
have been met. -/
structure Comparison (T T' : Layering) (π π' : Type) where
  owner : Handle T → Handle T'
  layout : Layout → Layout
  Allowed : Handle T → Prop
  Stores : (Nat → Nat → Prop) → Store T π → Store T' π' → Prop

namespace Comparison

variable {T T' : Layering} {π π' : Type} (comparison : Comparison T T' π π')

/-- The relabelling that goes with a renaming of the addresses. -/
def relabelling (addr : Nat → Nat) : Relabelling T T' :=
  ⟨addr, comparison.owner, comparison.layout⟩

/-- A renaming of the addresses that respects the pairs met. -/
def Renames (met : Nat → Nat → Prop) (addr : Nat → Nat) : Prop :=
  ∀ first second, met first second → addr first = second

/-- Two nodes with the same value, at a pair of addresses that has been met. -/
structure Nodes (met : Nat → Nat → Prop) (first : Node T) (second : Node T') : Prop where
  addr : met first.addr second.addr
  value : second.value = first.value
  owner : second.owner = comparison.owner first.owner
  allowed : comparison.Allowed first.owner

abbrev Tails (met : Nat → Nat → Prop) (first : Tail T) (second : Tail T') : Prop :=
  List.Forall₂ (comparison.Nodes met) first second

inductive Results {α β : Type} (same : α → β → Prop) :
    Except Failure α → Except Failure β → Prop where
  | ok {first second} (alike : same first second) : Results same (.ok first) (.ok second)
  | refused : Results same (.error .refused) (.error .refused)
  | aborted {layout} :
      Results same (.error (.aborted layout)) (.error (.aborted (comparison.layout layout)))

/-- Two requests with the same outcome. Addresses that are granted are met from now on. -/
inductive Requests (met : Nat → Nat → Prop) :
    Except Failure Nat × Store T π → Except Failure Nat × Store T' π' → Prop where
  | granted {addr addr' after after' later} (grown : met ≤ later) (pair : later addr addr')
      (stores : ∀ value, comparison.Stores later (after.emit (.nodeAllocated value addr))
        (after'.emit (.nodeAllocated value addr'))) :
      Requests met (.ok addr, after) (.ok addr', after')
  | refused {after after'} (stores : comparison.Stores met after after') :
      Requests met (.error .refused, after) (.error .refused, after')

/-- No fault on either side, and no refusal on the second, starting from the store `before`, without
a budget that is to blame: its parent has not run out. -/
structure Fair {α β : Type} (before : Store T' π') (first : Except Failure α × Store T π)
    (second : Except Failure β × Store T' π') : Prop where
  quiet : ∀ fault, first.1 ≠ .error (.fault fault)
  quiet' : ∀ fault, second.1 ≠ .error (.fault fault)
  unrefused : ¬ before.Refusing
  supplied : ∀ failure, second.1 = .error failure → second.2.Refusing

/-- What is done to records preserves the comparison, as long as it is fair. -/
structure Preserved [Parent π] [Parent π'] : Prop where
  renames : ∀ {met store store'}, comparison.Stores met store store' → ∃ addr, Renames met addr
  layout_record : ∀ {handle}, comparison.Allowed handle →
    comparison.layout (recordLayout π handle) = recordLayout π' (comparison.owner handle)
  allocate : ∀ {met store store' handle}, comparison.Stores met store store' →
    comparison.Allowed handle →
    Fair store' (store.allocate handle (recordLayout π handle))
      (store'.allocate (comparison.owner handle) (recordLayout π' (comparison.owner handle))) →
    comparison.Requests met (store.allocate handle (recordLayout π handle))
      (store'.allocate (comparison.owner handle) (recordLayout π' (comparison.owner handle)))
  free : ∀ {met store store' node node'}, comparison.Stores met store store' →
    comparison.Nodes met node node' → (node.free store).1 = none → (node'.free store').1 = none →
    comparison.Stores met (node.free store).2 (node'.free store').2
  abandon : ∀ {met store store'} (built total : Nat), comparison.Stores met store store' →
    comparison.Stores met (store.emit (.buildAbandoned built total))
      (store'.emit (.buildAbandoned built total))
  clear : ∀ {met store store'}, comparison.Stores met store store' →
    comparison.Stores met store.clearEvents store'.clearEvents

/-- Two computations on stores that go together, with results that go together. -/
def Ends {α β : Type} (same : (Nat → Nat → Prop) → α → β → Prop) (met : Nat → Nat → Prop)
    (first : α × Store T π) (second : β × Store T' π') : Prop :=
  ∃ later, met ≤ later ∧ same later first.1 second.1 ∧ comparison.Stores later first.2 second.2

variable {comparison} {met later : Nat → Nat → Prop}

theorem Renames.mono {addr : Nat → Nat} (renames : Renames later addr) (grown : met ≤ later) :
    Renames met addr := fun first second pair => renames first second (grown first second pair)

theorem Nodes.mono {first : Node T} {second : Node T'} (nodes : comparison.Nodes met first second)
    (grown : met ≤ later) : comparison.Nodes later first second :=
  ⟨grown _ _ nodes.addr, nodes.value, nodes.owner, nodes.allowed⟩

namespace Tails

variable {first : Tail T} {second : Tail T'}

theorem mono (tails : comparison.Tails met first second) (grown : met ≤ later) :
    comparison.Tails later first second :=
  tails.imp fun _ _ nodes => nodes.mono grown

theorem values (tails : comparison.Tails met first second) :
    Tail.values second = Tail.values first := by
  induction tails with
  | nil => rfl
  | cons nodes _ ih =>
    rw [Tail.values, List.map_cons, nodes.value]
    exact congrArg _ ih

theorem head_value (tails : comparison.Tails met first second) :
    second.head?.map Node.value = first.head?.map Node.value := by
  cases tails with
  | nil => rfl
  | cons nodes _ => exact congrArg some nodes.value

/-- A tail that goes with another is that one, relabelled. -/
theorem map_eq {addr : Nat → Nat} (tails : comparison.Tails met first second)
    (renames : Renames met addr) : second = first.map (comparison.relabelling addr).node := by
  induction tails with
  | nil => rfl
  | @cons node node' _ _ nodes _ ih =>
    obtain ⟨addr', value', owner'⟩ := node'
    obtain ⟨pair, rfl, rfl, -⟩ := nodes
    obtain rfl := renames _ _ pair
    rw [List.map_cons, ← ih]
    rfl

theorem isEmpty (tails : comparison.Tails met first second) : second.isEmpty = first.isEmpty := by
  cases tails <;> rfl

end Tails

theorem eq_none_of_elim {α : Type} {fault : Option Fault} {result : Except Failure α}
    (quiet : ∀ found, (fault.elim result fun cause => .error (.fault cause)) ≠
      .error (.fault found)) : fault = none := by
  cases fault with
  | none => rfl
  | some cause => exact absurd rfl (quiet cause)

section Stores

variable [Parent π] [Parent π'] {store : Store T π} {store' : Store T' π'}

theorem Fair.of_buildOnto {demand : Demand} {owner : Handle T} {owner' : Handle T'} {total : Nat}
    {value : Int64} {pending : List Int64} {built : Tail T} {built' : Tail T'}
    (fair : Fair store' (Chain.buildOnto demand owner total (value :: pending) built store)
      (Chain.buildOnto demand owner' total (value :: pending) built' store')) :
    Fair store' (Node.allocate demand owner value store)
      (Node.allocate demand owner' value store') := by
  refine ⟨fun fault failed => ?_, fun fault failed => ?_, fair.unrefused, fun failure failed => ?_⟩
  · apply fair.quiet fault
    rcases asked : Node.allocate demand owner value store with ⟨result, after⟩
    obtain rfl : result = _ := (congrArg Prod.fst asked).symm.trans failed
    simp only [Chain.buildOnto, asked]
  · apply fair.quiet' fault
    rcases asked : Node.allocate demand owner' value store' with ⟨result, after⟩
    obtain rfl : result = _ := (congrArg Prod.fst asked).symm.trans failed
    simp only [Chain.buildOnto, asked]
  · rcases asked : Node.allocate demand owner' value store' with ⟨result, after⟩
    obtain rfl : result = _ := (congrArg Prod.fst asked).symm.trans failed
    cases failure with
    | fault fault =>
      refine absurd ?_ (fair.quiet' fault)
      simp only [Chain.buildOnto, asked]
    | aborted layout =>
      have supplied := fair.supplied (.aborted layout)
      simp only [Chain.buildOnto, asked] at supplied
      exact supplied trivial
    | refused =>
      rw [Chain.buildOnto_of_refused _ _ _ asked] at fair
      have supplied := fair.supplied .refused (by rw [eq_none_of_elim fair.quiet']; rfl)
      simpa only [Store.refusing_discard, Store.refusing_emit, Event.isRefusal, Bool.false_eq_true,
        false_or] using supplied

namespace Preserved

/-- A node is allocated in both, or the demand is turned down in both. -/
theorem allocate_node (preserved : comparison.Preserved)
    (stores : comparison.Stores met store store') {owner : Handle T}
    (allowed : comparison.Allowed owner) (demand : Demand) (value : Int64)
    (fair : Fair store' (Node.allocate demand owner value store)
      (Node.allocate demand (comparison.owner owner) value store')) :
    comparison.Ends (fun later => comparison.Results (comparison.Nodes later)) met
      (Node.allocate demand owner value store)
      (Node.allocate demand (comparison.owner owner) value store') := by
  have requests := preserved.allocate stores allowed ⟨fun fault failed => ?_,
    fun fault failed => ?_, fair.unrefused, fun failure failed => ?_⟩
  · simp only [Node.allocate] at fair ⊢
    generalize store.allocate owner (recordLayout π owner) = first at requests
    generalize store'.allocate (comparison.owner owner)
      (recordLayout π' (comparison.owner owner)) = second at requests
    cases requests with
    | granted grown pair stores =>
      exact ⟨_, grown, .ok ⟨pair, rfl, rfl, allowed⟩, stores value⟩
    | refused stores =>
      refine ⟨met, le_refl _, ?_, stores⟩
      cases demand with
      | attempt => exact .refused
      | insist =>
        rw [Demand.onRefusal, Demand.onRefusal, ← preserved.layout_record allowed]
        exact .aborted
  · obtain ⟨failure, ended, named⟩ := Node.failed_of_asked demand value (Prod.ext failed rfl)
    exact fair.quiet fault (by rw [ended, named fault rfl])
  · obtain ⟨failure, ended, named⟩ := Node.failed_of_asked demand value (Prod.ext failed rfl)
    exact fair.quiet' fault (by rw [ended, named fault rfl])
  · obtain ⟨failure, ended, -⟩ := Node.failed_of_asked demand value (Prod.ext failed rfl)
    have supplied := fair.supplied failure (by rw [ended])
    rw [ended] at supplied
    exact supplied

theorem discard (preserved : comparison.Preserved) {tail : Tail T} {tail' : Tail T'}
    (tails : comparison.Tails met tail tail') (stores : comparison.Stores met store store')
    (quiet : (Tail.discard tail store).1 = none) (quiet' : (Tail.discard tail' store').1 = none) :
    comparison.Stores met (Tail.discard tail store).2 (Tail.discard tail' store').2 := by
  induction tails generalizing store store' with
  | nil => exact stores
  | cons nodes _ ih =>
    simp only [Tail.discard_cons, Option.or_eq_none_iff] at quiet quiet' ⊢
    exact ih (preserved.free stores nodes quiet.1 quiet'.1) quiet.2 quiet'.2

/-- Two heads that are released without a fault leave the tails behind them. -/
theorem released (preserved : comparison.Preserved) (stores : comparison.Stores met store store')
    {node : Node T} {node' : Node T'} (nodes : comparison.Nodes met node node')
    {rest left : Tail T} {rest' left' : Tail T'} {after : Store T π} {after' : Store T' π'}
    (released : Tail.releaseHead node rest store = (.ok left, after))
    (released' : Tail.releaseHead node' rest' store' = (.ok left', after')) :
    left = rest ∧ left' = rest' ∧ comparison.Stores met after after' := by
  have freed := preserved.free stores nodes
  simp only [Tail.releaseHead] at released released'
  split at released
  · next accepted =>
    split at released'
    · next accepted' =>
      rw [accepted, accepted'] at freed
      obtain ⟨⟨⟩, rfl⟩ := Prod.mk.inj released
      obtain ⟨⟨⟩, rfl⟩ := Prod.mk.inj released'
      exact ⟨rfl, rfl, freed rfl rfl⟩
    · cases released'
  · cases released

/-- The same number of nodes is put in front on both sides, or both builds are given up after the
same number of nodes. -/
theorem buildOnto (preserved : comparison.Preserved) (stores : comparison.Stores met store store')
    {owner : Handle T} (allowed : comparison.Allowed owner) (demand : Demand) (total : Nat)
    (pending : List Int64) {built : Tail T} {built' : Tail T'}
    (tails : comparison.Tails met built built')
    (fair : Fair store' (Chain.buildOnto demand owner total pending built store)
      (Chain.buildOnto demand (comparison.owner owner) total pending built' store')) :
    comparison.Ends (fun later => comparison.Results (comparison.Tails later)) met
      (Chain.buildOnto demand owner total pending built store)
      (Chain.buildOnto demand (comparison.owner owner) total pending built' store') := by
  induction pending generalizing met store store' built built' with
  | nil => exact ⟨met, le_refl _, .ok tails, stores⟩
  | cons value pending ih =>
    have allocated := preserved.allocate_node stores allowed demand value fair.of_buildOnto
    rcases asked : Node.allocate demand owner value store with ⟨result, after⟩
    rcases asked' : Node.allocate demand (comparison.owner owner) value store' with
      ⟨result', after'⟩
    rw [asked, asked'] at allocated
    obtain ⟨later, grown, results, stores⟩ := allocated
    cases results with
    | ok nodes =>
      have unrefused := mt (Store.refusing_granted asked').1 fair.unrefused
      simp only [Chain.buildOnto, asked, asked'] at fair ⊢
      obtain ⟨last, more, results, stores⟩ := ih stores (.cons nodes (tails.mono grown))
        { fair with unrefused }
      exact ⟨last, grown.trans more, results, stores⟩
    | aborted =>
      simp only [Chain.buildOnto, asked, asked']
      exact ⟨later, grown, .aborted, stores⟩
    | refused =>
      have noted := preserved.abandon built.length total stores
      rw [Chain.buildOnto_of_refused _ _ _ asked, Chain.buildOnto_of_refused _ _ _ asked',
        ← tails.length_eq] at fair ⊢
      have quiet := eq_none_of_elim fair.quiet
      have quiet' := eq_none_of_elim fair.quiet'
      rw [quiet, quiet']
      exact ⟨later, grown, .refused, preserved.discard (tails.mono grown) noted quiet quiet'⟩

end Preserved

end Stores

end Comparison

end ChainLedger
