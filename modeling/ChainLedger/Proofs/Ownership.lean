import ChainLedger.Proofs.Traffic
import ChainLedger.Session.Op
import Mathlib.Algebra.BigOperators.Group.List.Basic
import Mathlib.Tactic.Abel

set_option autoImplicit false

namespace ChainLedger

namespace Directory

variable {α β : Type}

def total (amount : α → Multiset β) (directory : Directory α) : Multiset β :=
  (directory.entries.map fun entry => amount entry.2).sum

def amountAt (amount : α → Multiset β) (name : String) (directory : Directory α) : Multiset β :=
  match directory.get? name with
  | none => 0
  | some held => amount held

variable (amount : α → Multiset β) (name : String) (directory : Directory α)

theorem total_erase :
    directory.total amount =
      directory.amountAt amount name + (directory.erase name).total amount := by
  obtain ⟨entries, unique⟩ := directory
  simp only [total, amountAt, get?, erase]
  induction entries with
  | nil => rfl
  | cons entry rest ih =>
    obtain ⟨found, held⟩ := entry
    rw [List.map_cons, List.nodup_cons] at unique
    have deeper := ih unique.2
    by_cases same : name = found
    · subst same
      have gone : rest.filter (fun entry => decide (entry.1 ≠ name)) = rest := by
        refine List.filter_eq_self.2 fun entry member => decide_eq_true fun same => ?_
        exact unique.1 (List.mem_map.2 ⟨entry, member, same⟩)
      simp only [List.map_cons, List.sum_cons, List.lookup_cons, beq_self_eq_true, ne_eq,
        not_true_eq_false, decide_false, Bool.false_eq_true, not_false_eq_true,
        List.filter_cons_of_neg, gone]
    · have differs : (name == found) = false := by
        simpa only [beq_eq_false_iff_ne] using same
      simp only [List.map_cons, List.sum_cons, List.lookup_cons, differs, ne_eq, Ne.symm same,
        not_false_eq_true, decide_true, List.filter_cons_of_pos]
      rw [deeper, add_left_comm]

theorem sum_ascending :
    (directory.ascending.map fun entry => amount entry.2).sum = directory.total amount :=
  (directory.ascending_perm.map _).sum_eq

theorem get?_of_mem {entry : String × α} (member : entry ∈ directory.entries) :
    directory.get? entry.1 = some entry.2 := by
  obtain ⟨entries, unique⟩ := directory
  replace member : entry ∈ entries := member
  simp only [get?]
  induction entries with
  | nil => cases member
  | cons first rest ih =>
    rw [List.map_cons, List.nodup_cons] at unique
    rcases List.mem_cons.1 member with rfl | member
    · rw [List.lookup_cons, beq_self_eq_true]
    · have differs : (entry.1 == first.1) = false := by
        rw [beq_eq_false_iff_ne]
        intro same
        exact unique.1 (List.mem_map.2 ⟨entry, member, same⟩)
      rw [List.lookup_cons, differs]
      exact ih unique.2 member

theorem mem_total {item : β} :
    item ∈ directory.total amount ↔ ∃ name, item ∈ directory.amountAt amount name := by
  constructor
  · intro member
    suffices found : ∃ entry ∈ directory.entries, item ∈ amount entry.2 by
      obtain ⟨entry, listed, member⟩ := found
      refine ⟨entry.1, ?_⟩
      rw [amountAt, directory.get?_of_mem listed]
      exact member
    rw [total] at member
    generalize directory.entries = entries at member ⊢
    induction entries with
    | nil => exact absurd member (Multiset.notMem_zero item)
    | cons entry rest ih =>
      rw [List.map_cons, List.sum_cons, Multiset.mem_add] at member
      rcases member with member | member
      · exact ⟨entry, List.mem_cons_self, member⟩
      · obtain ⟨other, listed, found⟩ := ih member
        exact ⟨other, List.mem_cons_of_mem _ listed, found⟩
  · rintro ⟨name, member⟩
    rw [directory.total_erase amount name]
    exact Multiset.mem_add.2 (Or.inl member)

theorem map_total {γ : Type} (change : β → γ) :
    (directory.total amount).map change = directory.total fun held => (amount held).map change := by
  simp only [total]
  induction directory.entries with
  | nil => rfl
  | cons entry rest ih => simp only [List.map_cons, List.sum_cons, Multiset.map_add, ih]

theorem erase_put (held : α) : (directory.put name held).erase name = directory.erase name := by
  apply ext
  simp only [put, erase, ne_eq, not_true_eq_false, decide_false, Bool.false_eq_true,
    not_false_eq_true, List.filter_cons_of_neg, List.filter_filter, Bool.and_self]

theorem amountAt_put (held : α) : (directory.put name held).amountAt amount name = amount held := by
  simp only [amountAt, get?_put, ↓reduceIte]

theorem total_put (held : α) :
    (directory.put name held).total amount =
      amount held + (directory.erase name).total amount := by
  rw [total_erase amount name, amountAt_put, erase_put]

end Directory

variable {T : Layering} {π : Type}

namespace Registers

def owned (registers : Registers T) : Multiset (Node T) :=
  registers.total fun register => ↑register.nodes

/-- The nodes of all registers but one. -/
def others (name : String) (registers : Registers T) : Multiset (Node T) :=
  owned (registers.erase name)

theorem owned_eq (name : String) (registers : Registers T) :
    registers.owned = ↑(registers.nodes name) + registers.others name := by
  rw [owned, others, Directory.total_erase _ name, Directory.amountAt, nodes]
  cases registers.get? name <;> rfl

theorem mem_owned {node : Node T} {registers : Registers T} :
    node ∈ registers.owned ↔ ∃ name, node ∈ registers.nodes name := by
  rw [owned, Directory.mem_total]
  refine exists_congr fun name => ?_
  rw [Directory.amountAt, nodes]
  cases registers.get? name with
  | none =>
    have outside := Multiset.notMem_zero node
    exact ⟨fun member => absurd member outside, fun member => absurd member List.not_mem_nil⟩
  | some register => exact Multiset.mem_coe

theorem owned_put (name : String) (register : Register T) (registers : Registers T) :
    owned (registers.put name register) = ↑register.nodes + registers.others name :=
  Directory.total_put _ _ _ _

theorem nodes_erase_of_ne {name other : String} (differs : name ≠ other)
    (registers : Registers T) : nodes other (registers.erase name) = registers.nodes other := by
  simp only [nodes, Directory.get?_erase, differs, ↓reduceIte]

theorem others_eq_owned {name : String} {registers : Registers T}
    (absent : registers.get? name = none) : registers.others name = registers.owned := by
  rw [registers.owned_eq name, nodes, absent]
  exact (zero_add _).symm

end Registers

def Reply.fault? : Reply T → Option Fault
  | .failed failure => failure.fault?
  | _ => none

/-- A fault found at the end is the one reported, unless the operation has failed before. -/
theorem Reply.fault?_orFault {reply : Reply T} {fault : Option Fault} {found : Fault}
    (same : (reply.orFault fault).fault? = some found) :
    reply.fault? = some found ∨ fault = some found := by
  cases fault with
  | none => exact Or.inl same
  | some late =>
    cases reply with
    | failed failure => exact Or.inl same
    | _ => exact Or.inr same

namespace Session

def owned (session : Session T π) : Multiset (Node T) :=
  session.registers.owned

theorem owned_eq (session : Session T π) (name : String) :
    session.owned = ↑(session.nodes name) + session.registers.others name :=
  session.registers.owned_eq name

theorem nodes_of_chain (session : Session T π) {name : String} {chain : Chain T}
    (found : session.registers.get? name = some (.chain chain)) :
    session.nodes name = chain.nodes := by
  simp only [nodes, Registers.nodes, found, Register.nodes]

theorem owned_take (session : Session T π) (name : String) :
    session.owned = ↑(session.take name).1 + (session.take name).2.owned :=
  session.owned_eq name

theorem owned_take? (session : Session T π) (source : Option String) :
    session.owned = ↑(session.take? source).1 + (session.take? source).2.owned := by
  cases source with
  | none => exact (zero_add _).symm
  | some name => exact session.owned_take name

@[simp] theorem store_take? (session : Session T π) (source : Option String) :
    (session.take? source).2.store = session.store := by
  cases source <;> rfl

theorem get?_take? (session : Session T π) (source : Option String) {name : String}
    (absent : session.registers.get? name = none) :
    (session.take? source).2.registers.get? name = none := by
  cases source with
  | none => exact absent
  | some other =>
    refine (Directory.get?_erase other name session.registers).trans ?_
    rw [absent, ite_self]

theorem nodes_take?_of_ne (session : Session T π) {source : Option String} {name : String}
    (differs : source ≠ some name) : (session.take? source).2.nodes name = session.nodes name := by
  cases source with
  | none => rfl
  | some other =>
    exact Registers.nodes_erase_of_ne (fun same => differs (congrArg some same)) session.registers

theorem owned_put (session : Session T π) (name : String) (register : Register T) :
    ({ session with registers := session.registers.put name register } : Session T π).owned =
      ↑register.nodes + session.registers.others name :=
  Registers.owned_put _ _ _

theorem owned_setNodes (session : Session T π) (name : String) (tail : Tail T) :
    (session.setNodes name tail).owned = ↑tail + session.registers.others name := by
  rw [setNodes, owned_put]
  split
  · rfl
  · rw [Register.nodes_withNodes]

theorem fault?_inspect (session : Session T π) (name : String) (position : Nat) :
    (session.inspect name position).fault? = none := by
  unfold inspect
  split <;> rfl

theorem fault?_info (session : Session T π) (name : String) :
    (session.info name).fault? = none := by
  unfold info
  split <;> rfl

theorem fault?_render (session : Session T π) (name : String) (position : Option Nat)
    (style : Option Style) :
    (session.render name position style).fault? = none := by
  simp only [render]
  split <;> rfl

theorem fault?_stream (session : Session T π) (name : String) (position : Nat)
    (steps : Option (List StreamStep)) :
    (session.stream name position steps).fault? = none := by
  simp only [stream]
  split
  · rfl
  · cases steps <;> rfl

theorem fault?_cursor (session : Session T π) (name : String) (position : Nat)
    (steps : Option (List CursorStep)) :
    (session.cursor name position steps).fault? = none := by
  unfold cursor
  split
  · split <;> rfl
  · cases steps with
    | none => rfl
    | some steps =>
      simp only
      split <;> rfl

end Session

variable [Parent π]

/-- Whether an operation asks a ledger or changes the parent past all nodes. -/
def Op.IsDirect : Op T π → Prop
  | .allocate .. | .deallocate .. | .exchange .. | .configure _ => True
  | _ => False

namespace Session

variable {direct : Prop}

theorem accounts_discard (session : Session T π) (tail : Tail T) :
    Accounts direct session.store (↑tail + session.owned) (session.discard tail).1
      (session.discard tail).2.store (session.discard tail).2.owned :=
  tail.accounts_discard session.store session.owned

theorem accounts_discarded {session after : Session T π} {tail : Tail T} {fault : Option Fault}
    (discarded : session.discard tail = (fault, after)) (aside : Multiset (Node T)) :
    Accounts direct session.store (↑tail + session.owned + aside) fault after.store
      (after.owned + aside) := by
  have accounts : Accounts direct _ _ _ _ _ := (session.accounts_discard tail).frame aside
  rw [discarded] at accounts
  exact accounts

theorem accounts_put (session : Session T π) (name : String) (register : Register T) :
    Accounts direct session.store (↑register.nodes + session.owned) (session.put name register).1
      (session.put name register).2.store (session.put name register).2.owned := by
  refine Accounts.cast (accounts_discard ⟨session.store, session.registers.put name register⟩
    (session.nodes name)) ?_ rfl
  rw [owned_put, session.owned_eq name, add_left_comm]

theorem accounts_dispose (session : Session T π) (target : Option String) (tail : Tail T) :
    Accounts direct session.store (↑tail + session.owned) (session.dispose target tail).1
      (session.dispose target tail).2.store (session.dispose target tail).2.owned := by
  cases target with
  | none => exact session.accounts_discard tail
  | some name => exact session.accounts_put name (.loose tail)

/-- The nodes of lists that are still to be stored. -/
def heap (aside : List (String × Tail T)) : Multiset (Node T) :=
  (aside.map fun entry => (↑entry.2 : Multiset (Node T))).sum

theorem heap_reverse (aside : List (String × Tail T)) :
    heap aside.reverse = heap aside := by
  rw [heap, List.map_reverse, List.sum_reverse, heap]

theorem accounts_putAll (aside : List (String × Tail T)) (session : Session T π) :
    Accounts direct session.store (heap aside + session.owned) (session.putAll aside).1
      (session.putAll aside).2.store (session.putAll aside).2.owned := by
  induction aside generalizing session with
  | nil => exact Accounts.refl.cast (zero_add _) rfl
  | cons entry rest ih =>
    obtain ⟨name, tail⟩ := entry
    have first : Accounts direct _ _ _ _ _ :=
      (session.accounts_put name (.loose tail)).frame (heap rest)
    have later := ih (session.put name (.loose tail)).2
    rw [add_comm (heap rest)] at later
    have both := first.trans later fun found same =>
      (Option.or_eq_some_iff.1 same).imp_right And.right
    refine both.cast ?_ rfl
    rw [heap, List.map_cons, List.sum_cons, add_right_comm]
    rfl

theorem accounts_conclude {store : Store T π} {held : Multiset (Node T)} {reply : Reply T}
    {result : Option Fault × Session T π} (quiet : reply.fault? = none)
    (accounts : Accounts direct store held result.1 result.2.store result.2.owned) :
    Accounts direct store held (conclude reply result).1.fault? (conclude reply result).2.store
      (conclude reply result).2.owned := by
  obtain ⟨faults, traffic, blamed⟩ := accounts
  refine ⟨faults, traffic, fun found same => blamed found ?_⟩
  rcases Reply.fault?_orFault same with early | late
  · rw [quiet] at early
    cases early
  · exact late

end Session

theorem Zipper.coe_nodes_link (successors : Tail T) (zipper : Zipper T) :
    (↑zipper.nodes + ↑successors : Multiset (Node T)) =
      ↑(zipper.link successors).2.nodes + ↑(zipper.link successors).1 := by
  simp only [nodes, link, Multiset.coe_add, List.append_assoc, List.cons_append,
    Multiset.coe_eq_coe]
  exact (List.perm_append_comm.cons _).append_left _

/-- To split off is to link nothing. -/
theorem Zipper.walk_splitOff (answers : List (Answer T)) (aside : List (String × Tail T))
    (zipper : Zipper T) (session : Session T π) (target : Option String)
    (steps : List WalkStep) :
    zipper.walk answers aside session (.splitOff target :: steps) =
      zipper.walk answers aside session (.link none target :: steps) :=
  rfl

/-- The nodes in the hands of a walk that has ended. -/
def WalkEnd.owned (walked : WalkEnd T π) : Multiset (Node T) :=
  ↑walked.left + (Session.heap walked.aside + walked.session.owned)

/-- Wherever a walk takes these steps, it accounts for the nodes it starts with. -/
def Zipper.Accounted (π : Type) [Parent π] (T : Layering) (direct : Prop)
    (steps : List WalkStep) : Prop :=
  ∀ (answers : List (Answer T)) (aside : List (String × Tail T)) (zipper : Zipper T)
    (session : Session T π),
    let walked := zipper.walk answers aside session steps
    Accounts direct session.store (↑zipper.nodes + (Session.heap aside + session.owned))
      walked.reply.fault? walked.session.store walked.owned

theorem Zipper.Accounted.link {direct : Prop} {steps : List WalkStep}
    (behind : Accounted π T direct steps) (source target : Option String) :
    Accounted π T direct (.link source target :: steps) := by
  intro answers aside zipper session
  have owned := session.owned_take? source
  have same := session.store_take? source
  rcases taken : session.take? source with ⟨successors, others⟩
  rw [taken] at owned same
  simp only at owned same
  have exchanged : (↑zipper.nodes + (Session.heap aside + session.owned) : Multiset (Node T)) =
      ↑(zipper.link successors).2.nodes + (↑(zipper.link successors).1 +
        (Session.heap aside + others.owned)) := by
    rw [owned, ← add_assoc (↑(zipper.link successors).2.nodes : Multiset (Node T)),
      ← zipper.coe_nodes_link]
    abel
  simp only [walk, taken, exchanged, ← same]
  cases target with
  | some name =>
    refine (behind _ _ _ _).cast ?_ rfl
    rw [Session.heap, Session.heap, List.map_cons, List.sum_cons, add_assoc]
  | none =>
    simp only
    split
    · next between discarded =>
      have dropped : Accounts direct _ _ _ _ _ := Session.accounts_discarded discarded
        (↑(zipper.link successors).2.nodes + Session.heap aside)
      refine Accounts.cast (dropped.trans ((behind _ _ _ _).cast ?_ rfl) fun found same =>
        Or.inr same) ?_ rfl
      · abel
      · abel
    · next fault between discarded =>
      have dropped : Accounts direct _ _ _ _ _ := Session.accounts_discarded discarded
        (↑(zipper.link successors).2.nodes + Session.heap aside)
      simp only [WalkEnd.owned, Session.heap_reverse]
      refine dropped.cast ?_ ?_
      · abel
      · abel

theorem Zipper.accounted {direct : Prop} (steps : List WalkStep) :
    Accounted π T direct steps := by
  induction steps with
  | nil =>
    intro answers aside zipper session
    simp only [walk, WalkEnd.owned, Session.heap_reverse]
    exact .refl
  | cons step steps ih =>
    intro answers aside zipper session
    cases step with
    | value => exact ih _ _ _ _
    | terminal => exact ih _ _ _ _
    | valueAndNext => exact ih _ _ _ _
    | next => exact ih _ _ _ _
    | owner => exact ih _ _ _ _
    | unrecognised => exact ih _ _ _ _
    | render style =>
      cases style with
      | none =>
        simp only [walk, WalkEnd.owned, Session.heap_reverse]
        exact .refl
      | some style => exact ih _ _ _ _
    | advance =>
      unfold walk
      split
      · next moved found =>
        rw [← (nodes_of_advance? found).1]
        exact ih _ _ _ _
      · simp only [WalkEnd.owned, Session.heap_reverse]
        exact .refl
    | release =>
      unfold walk
      split <;>
        · next released =>
          simp only [WalkEnd.owned, Session.heap_reverse]
          exact zipper.accounts_release released
    | splitOff target =>
      rw [walk_splitOff]
      exact ih.link none target answers aside zipper session
    | link source target => exact ih.link source target answers aside zipper session

/-- While a walk lasts no register comes in, so the name that is away stays free. -/
theorem Zipper.walk_absent {name : String} (answers : List (Answer T))
    (aside : List (String × Tail T)) (zipper : Zipper T) (session : Session T π)
    (steps : List WalkStep) (absent : session.registers.get? name = none) :
    (zipper.walk answers aside session steps).session.registers.get? name = none := by
  induction steps generalizing answers aside zipper session with
  | nil => exact absent
  | cons step steps ih =>
    have linked : ∀ source target,
        (zipper.walk answers aside session (.link source target :: steps)).session.registers.get?
          name = none := by
      intro source target
      have gone := session.get?_take? source absent
      rcases taken : session.take? source with ⟨successors, others⟩
      rw [taken] at gone
      simp only [walk, taken]
      cases target with
      | some other => exact ih _ _ _ _ gone
      | none =>
        simp only [Session.discard]
        split
        · next discarded =>
          simp only [Prod.mk.injEq] at discarded
          rw [← discarded.2]
          exact ih _ _ _ _ gone
        · next discarded =>
          simp only [Prod.mk.injEq] at discarded
          rw [← discarded.2]
          exact gone
    cases step with
    | value => exact ih _ _ _ _ absent
    | terminal => exact ih _ _ _ _ absent
    | valueAndNext => exact ih _ _ _ _ absent
    | next => exact ih _ _ _ _ absent
    | owner => exact ih _ _ _ _ absent
    | unrecognised => exact ih _ _ _ _ absent
    | render style =>
      cases style with
      | none => exact absent
      | some style => exact ih _ _ _ _ absent
    | advance =>
      unfold walk
      split
      · exact ih _ _ _ _ absent
      · exact absent
    | release =>
      unfold walk
      split <;> exact absent
    | splitOff target => exact linked none target
    | link source target => exact linked source target

namespace Session

variable {direct : Prop} (session : Session T π)

/-- An operation accounts for what it does with the nodes of a session. -/
def Balanced (direct : Prop) (session : Session T π) (result : Reply T × Session T π) : Prop :=
  Accounts direct session.store session.owned result.1.fault? result.2.store result.2.owned

theorem balanced_same (reply : Reply T) (quiet : reply.fault? = none) :
    Balanced direct session (reply, session) := by
  rw [Balanced, quiet]
  exact .refl

theorem balanced_node (target : String) (demand : Demand) (owner : Handle T) (value : Int64) :
    Balanced direct session (session.node target demand owner value) := by
  simp only [node, Balanced]
  split
  · next node store granted =>
    apply accounts_conclude rfl
    exact (Accounts.of_move (.allocate granted)).trans
      (accounts_put { session with store } target (.loose [node])) fun found same => Or.inr same
  · next failure store failed => exact .of_move (.fail failed)

theorem balanced_chain (target : String) (demand : Demand) (owner : Handle T)
    (values : List Int64)
    (survived : (session.chain target demand owner values).1.isAbort = false) :
    Balanced direct session (session.chain target demand owner values) := by
  simp only [chain, Chain.build] at survived ⊢
  rcases built : Chain.buildOnto demand owner values.length values.reverse [] session.store with
    ⟨failure | nodes, store⟩
  · simp only [built] at survived ⊢
    refine (Chain.accounts_buildOnto_error built fun layout same => ?_).cast (zero_add _).symm rfl
    simp only [same, Reply.isAbort, Bool.true_eq_false] at survived
  · apply accounts_conclude rfl
    have grown : Accounts direct session.store (0 + session.owned) none _ _ :=
      Chain.accounts_buildOnto built
    exact Accounts.cast (grown.trans
      (accounts_put { session with store } target (.chain ⟨nodes, owner⟩))
        fun found same => Or.inr same) (zero_add _).symm rfl

theorem balanced_empty (target : String) (owner : Handle T) :
    Balanced direct session (session.empty target owner) := by
  apply accounts_conclude rfl
  exact (session.accounts_put target (.chain (.empty owner))).cast (zero_add _).symm rfl

theorem balanced_link (name : String) (position : Nat) (source target : Option String) :
    Balanced direct session (session.link name position source target) := by
  unfold link
  split
  · exact session.balanced_same _ rfl
  · next differs =>
    split
    · exact session.balanced_same _ rfl
    · next kept cut found =>
      have whole := (Tail.append_of_cutAfter? found).1
      have owned := session.owned_take? source
      have same := session.store_take? source
      have nodes := session.nodes_take?_of_ne differs
      rcases taken : session.take? source with ⟨successors, others⟩
      rw [taken] at owned same nodes
      apply accounts_conclude rfl
      rw [← same]
      refine ((others.setNodes name (kept ++ successors)).accounts_dispose target cut).cast ?_ rfl
      rw [owned, others.owned_eq name, nodes, ← whole, owned_setNodes, ← Multiset.coe_add,
        ← Multiset.coe_add]
      abel

theorem balanced_unlink (name : String) (position : Nat) (target : Option String) :
    Balanced direct session (session.unlink name position target) := by
  unfold unlink
  split
  · exact session.balanced_same _ rfl
  · next kept cut found =>
    have whole := (Tail.append_of_cutAfter? found).1
    apply accounts_conclude rfl
    refine ((session.setNodes name kept).accounts_dispose target cut).cast ?_ rfl
    rw [session.owned_eq name, owned_setNodes, ← whole, ← Multiset.coe_add]
    abel

theorem balanced_release (name : String) (target : Option String) :
    Balanced direct session (session.release name target) := by
  have owned := session.owned_take name
  have same : (session.take name).2.store = session.store := rfl
  rcases taken : session.take name with ⟨_ | ⟨node, rest⟩, away⟩
  · rw [taken, Multiset.coe_nil, zero_add] at owned
    rw [taken] at same
    simp only [release, taken, Balanced, ← same, owned]
    exact .refl
  · rw [taken, ← Multiset.cons_coe, Multiset.cons_add] at owned
    rw [taken] at same
    simp only [release, taken, Balanced, ← same, owned]
    split
    · next left store released =>
      obtain ⟨rfl, freed⟩ := Tail.accounts_releaseHead released
      apply accounts_conclude rfl
      exact freed.trans (accounts_dispose { away with store } target left) fun found same =>
        Or.inr same
    · next fault store failed => exact Tail.accounts_releaseHead_fault failed

theorem balanced_move (name : String) (target : Option String) :
    Balanced direct session (session.move name target) := by
  have owned := session.owned_take name
  unfold move
  cases target with
  | some target =>
    apply accounts_conclude rfl
    exact ((session.take name).2.accounts_put target (.loose (session.take name).1)).cast owned rfl
  | none =>
    apply accounts_conclude rfl
    exact ((session.take name).2.accounts_discard (session.take name).1).cast owned rfl

theorem balanced_drop (name : String) : Balanced direct session (session.drop name) := by
  apply accounts_conclude rfl
  exact ((session.take name).2.accounts_discard (session.take name).1).cast
    (session.owned_take name) rfl

theorem balanced_intoHead (name : String) (target : Option String) :
    Balanced direct session (session.intoHead name target) := by
  unfold intoHead
  split
  · apply accounts_conclude rfl
    exact ((session.take name).2.accounts_dispose target (session.take name).1).cast
      (session.owned_take name) rfl
  · exact session.balanced_same _ rfl

theorem balanced_pushFront (name : String) (demand : Demand) (value : Int64) :
    Balanced direct session (session.pushFront name demand value) := by
  unfold pushFront
  split
  · next chain found =>
    have owned := session.owned_eq name
    rw [session.nodes_of_chain found] at owned
    simp only [Chain.pushFront, Balanced, owned]
    rcases asked : Node.allocate demand chain.owner value session.store with
      ⟨failure | node, store⟩
    · apply (Accounts.of_move (.fail asked)).cast rfl
      exact (Registers.owned_put name (.chain chain) session.registers).symm
    · apply (Accounts.of_move (.allocate asked)).cast rfl
      rw [← Multiset.cons_add]
      exact (Registers.owned_put name (.chain ⟨node :: chain.nodes, chain.owner⟩)
        session.registers).symm
  · exact session.balanced_same _ rfl

theorem balanced_popFront (name : String) :
    Balanced direct session (session.popFront name) := by
  unfold popFront
  split
  · next chain found =>
    have owned := session.owned_eq name
    rw [session.nodes_of_chain found] at owned
    obtain ⟨nodes, owner⟩ := chain
    have put := fun nodes =>
      (Registers.owned_put name (.chain ⟨nodes, owner⟩) session.registers).symm
    cases nodes with
    | nil =>
      rw [Balanced, owned]
      exact Accounts.refl.cast rfl (put [])
    | cons node rest =>
      simp only [Chain.popFront, Balanced, owned, ← Multiset.cons_coe, Multiset.cons_add]
      rcases released : Tail.releaseHead node rest session.store with ⟨fault | left, store⟩
      · apply (Tail.accounts_releaseHead_fault released).cast rfl
        exact (zero_add _).symm.trans (put [])
      · obtain ⟨rfl, freed⟩ := Tail.accounts_releaseHead released
        exact freed.cast rfl (put left)
  · exact session.balanced_same _ rfl

theorem balanced_walk (name : String) (steps : List WalkStep) :
    Balanced direct session (session.walk name steps) := by
  simp only [walk]
  split
  · exact session.balanced_same _ rfl
  · next register found =>
    split
    · exact session.balanced_same _ rfl
    · next zipper place =>
      have owned := session.owned_eq name
      rw [Session.nodes, Registers.nodes, found] at owned
      have whole := (Zipper.nodes_of_ofTail? place).1
      have absent : (session.registers.erase name).get? name = none := by
        simp only [Directory.get?_erase, ↓reduceIte]
      have still := zipper.walk_absent [] [] ⟨session.store, session.registers.erase name⟩ steps
        absent
      have accounts : Accounts direct _ _ _ _ _ := Zipper.accounted steps [] [] zipper
        (⟨session.store, session.registers.erase name⟩ : Session T π)
      generalize zipper.walk [] [] ⟨session.store, session.registers.erase name⟩ steps = ended
        at still accounts ⊢
      obtain ⟨reply, left, aside, walked⟩ := ended
      have stored : Accounts direct _ _ _ _ _ := accounts_putAll aside
        { walked with registers := walked.registers.put name (register.withNodes left) }
      rw [owned_put, Registers.others_eq_owned still, Register.nodes_withNodes,
        add_left_comm] at stored
      rw [whole] at accounts
      refine Accounts.cast (accounts.trans stored fun fault same =>
        Reply.fault?_orFault same) ?_ rfl
      apply owned.trans
      exact congrArg _ (zero_add _).symm

theorem balanced_allocate (allowed : direct) (i : Fin T.size) (layout : Layout) :
    Balanced direct session (session.allocate i layout) := by
  unfold allocate
  split <;>
    · next asked => exact .of_move (.request allowed asked)

theorem balanced_deallocate (allowed : direct) (i : Fin T.size) (addr : Nat) (layout : Layout) :
    Balanced direct session (session.deallocate i addr layout) := by
  unfold deallocate
  rcases returned : session.store.deallocate (some i) addr layout with ⟨fault, store⟩
  show Balanced direct session (conclude (.answer .done) (fault, { session with store }))
  exact accounts_conclude rfl (.of_move (.giveBack allowed returned))

theorem balanced_exchange (allowed : direct) (i : Fin T.size) (addr : Nat)
    (held wanted : Layout) : Balanced direct session (session.exchange i addr held wanted) := by
  simp only [exchange, Store.exchange]
  rcases asked : session.store.allocate (some i) wanted with ⟨failure | moved, store⟩
  · exact .of_move (.request allowed asked)
  · have first : Accounts direct _ session.owned _ _ _ := .of_move (.request allowed asked)
    rcases returned : store.deallocate (some i) addr held with ⟨_ | fault, after⟩ <;>
      · simp only [returned]
        exact first.trans (.of_move (.giveBack allowed returned)) fun found same => Or.inr same

/-- Every operation that does not end the run accounts for the nodes of the session. -/
theorem balanced_perform (op : Op T π) (allowed : op.IsDirect → direct)
    (survived : (session.perform op).1.isAbort = false) :
    Balanced direct session (session.perform op) := by
  cases op with
  | node target demand owner value => exact session.balanced_node target demand owner value
  | chain target demand owner values =>
    exact session.balanced_chain target demand owner values survived
  | empty target owner => exact session.balanced_empty target owner
  | inspect name position =>
    exact session.balanced_same _ (session.fault?_inspect name position)
  | link name position source target => exact session.balanced_link name position source target
  | unlink name position target => exact session.balanced_unlink name position target
  | release name target => exact session.balanced_release name target
  | move name target => exact session.balanced_move name target
  | drop name => exact session.balanced_drop name
  | intoHead name target => exact session.balanced_intoHead name target
  | pushFront name demand value => exact session.balanced_pushFront name demand value
  | popFront name => exact session.balanced_popFront name
  | info name =>
    exact session.balanced_same _ (session.fault?_info name)
  | values name => exact session.balanced_same _ rfl
  | render name position style =>
    exact session.balanced_same _ (session.fault?_render name position style)
  | stream name position steps =>
    exact session.balanced_same _ (session.fault?_stream name position steps)
  | cursor name position steps =>
    exact session.balanced_same _ (session.fault?_cursor name position steps)
  | walk name steps => exact session.balanced_walk name steps
  | setBudget i budget => exact .of_move .setBudget
  | ledger i => exact session.balanced_same _ rfl
  | renderLedger i style => exact session.balanced_same _ rfl
  | isLive i addr => exact session.balanced_same _ rfl
  | allocate i layout => exact session.balanced_allocate (allowed trivial) i layout
  | deallocate i addr layout => exact session.balanced_deallocate (allowed trivial) i addr layout
  | exchange i addr held wanted =>
    exact session.balanced_exchange (allowed trivial) i addr held wanted
  | configure setting => exact .of_move (.configure (allowed trivial))

end Session

end ChainLedger
