import ChainLedger.Proofs.Alongside
import ChainLedger.Proofs.Frame
import ChainLedger.Proofs.Trail

set_option autoImplicit false

namespace ChainLedger

variable {T : Layering} {own : Fin T.size → Prop} {mine : String → Prop}

section Bystanders

theorem Arena.next_le_of_allocate {layout : Layout} {arena after : Arena} {answer : Option Nat}
    (aligned : 0 < layout.align) (asked : arena.allocate layout = (answer, after)) :
    arena.next ≤ after.next ∧ after.stop = arena.stop := by
  cases answer with
  | none =>
    obtain ⟨rfl, -⟩ := allocate_none asked
    exact ⟨Nat.le_refl _, rfl⟩
  | some addr =>
    obtain ⟨above, past⟩ := le_of_allocate_some aligned asked
    exact ⟨above.trans ((Nat.le_add_right _ _).trans past), (allocate_some asked).2.2⟩

/-- Since `base` the ledgers of a party have not been touched, and the arena has only moved on. -/
structure Store.Spares (own : Fin T.size → Prop) (base store : Store T Arena) : Prop where
  ledgers : ∀ i, own i → store.ledger i = base.ledger i
  advanced : base.parent.next ≤ store.parent.next
  stop : store.parent.stop = base.parent.stop

variable {base store : Store T Arena}

namespace Store.Spares

theorem refl (base : Store T Arena) : Spares own base base :=
  ⟨fun _ _ => rfl, Nat.le_refl _, rfl⟩

/-- A request at other ledgers spares those of the party. -/
theorem allocate (spares : Spares own base store) {handle : Handle T}
    (other : ∀ i ∈ handle.path, ¬ own i) {layout : Layout} (aligned : 0 < layout.align) :
    Spares own base (store.allocate handle layout).2 := by
  rcases asked : store.allocate handle layout with ⟨answer, after⟩
  have moved : store.parent.next ≤ after.parent.next ∧ after.parent.stop = store.parent.stop := by
    rcases Store.parent_allocate asked with same | ⟨granted, reached⟩
    · rw [same]
      exact ⟨Nat.le_refl _, rfl⟩
    · exact Arena.next_le_of_allocate aligned reached
  refine ⟨fun i mine => ?_, spares.advanced.trans moved.1, moved.2.trans spares.stop⟩
  have untouched := ledger_allocateAlong_of_not_mem layout handle.path store i fun on =>
    other i on mine
  rw [show allocateAlong layout handle.path store = (answer, after) from asked] at untouched
  exact untouched.trans (spares.ledgers i mine)

theorem free (spares : Spares own base store) {node : Node T}
    (other : ∀ i ∈ node.owner.path, ¬ own i) : Spares own base (node.free store).2 where
  ledgers i mine :=
    (ledger_deallocateAlong_of_not_mem _ _ _ _ i fun on => other i on mine).trans
      (spares.ledgers i mine)
  advanced := by
    rw [Node.parent_free fun _ _ => rfl]
    exact spares.advanced
  stop := by
    rw [Node.parent_free fun _ _ => rfl]
    exact spares.stop

theorem setBudget (spares : Spares own base store) {i : Fin T.size} (other : ¬ own i)
    (budget : Option Nat) : Spares own base (store.setBudget i budget) where
  ledgers j mine := by
    have differs : i ≠ j := fun same => other (same ▸ mine)
    rw [Store.setBudget, ledger_withLedger, if_neg differs, spares.ledgers j mine]
  advanced := spares.advanced
  stop := spares.stop

end Store.Spares

/-- A system and itself, as long as the ledgers of a party are spared. -/
def Comparison.beside (own : Fin T.size → Prop) (base : Store T Arena) :
    Comparison T T Arena Arena where
  owner := id
  layout := id
  Allowed owner := ∀ i ∈ owner.path, ¬ own i
  Stores met store store' := met = Eq ∧ store = store' ∧ Store.Spares own base store

/-- What a register holds does not depend on the store it is compared to. -/
theorem Comparison.Directories.rebase {registers : Registers T}
    (directories : (beside own base).Directories mine Eq registers registers)
    (other : Store T Arena) : (beside own other).Directories mine Eq registers registers :=
  have same : (beside own other).owner = (beside own base).owner := rfl
  directories.congr same rfl

theorem Comparison.preserved_beside (own : Fin T.size → Prop) (base : Store T Arena) :
    (beside own base).Preserved where
  renames stores := ⟨id, fun _ _ pair => stores.1 ▸ pair⟩
  layout_record _ := rfl
  allocate := by
    rintro met store _ handle ⟨rfl, rfl, spares⟩ other fair
    have after := spares.allocate other (recordLayout_proper (π := Arena) handle).1
    have same : (beside own base).owner handle = handle := rfl
    rw [same] at fair ⊢
    rcases asked : store.allocate handle (recordLayout Arena handle) with ⟨failure | addr, between⟩
    · rw [asked] at after fair
      cases failure with
      | refused => exact .refused ⟨rfl, rfl, after⟩
      | fault fault => exact absurd rfl (fair.quiet fault)
      | aborted layout =>
        exact absurd (congrArg Prod.fst asked) (Store.allocateAlong_ne_aborted _ _ _ _)
    · rw [asked] at after
      exact .granted (le_refl _) rfl fun value =>
        ⟨rfl, rfl, after.ledgers, after.advanced, after.stop⟩
  free := by
    rintro met store _ node node' ⟨rfl, rfl, spares⟩ nodes _ _
    have same : node = node' := by
      cases node
      cases node'
      exact Node.mk.injEq .. ▸ ⟨nodes.addr, nodes.value.symm, nodes.owner.symm⟩
    exact ⟨rfl, same ▸ rfl, spares.free nodes.allowed⟩
  abandon built total stores := ⟨stores.1, congrArg _ stores.2.1, { stores.2.2 with }⟩
  clear stores := ⟨stores.1, congrArg _ stores.2.1, { stores.2.2 with }⟩

end Bystanders

/-- What a party may ask for with these names and ledgers: operations on lists under its names, of
nodes that come from its ledgers or straight from the parent, and new budgets for its ledgers. -/
inductive Op.Within {π : Type} [Parent π] (names : String → Prop) (ledgers : Fin T.size → Prop) :
    Op T π → Prop where
  | list {op} (listed : ¬ op.IsBookkeeping) (named : ∀ name ∈ op.names, names name)
      (owned : ∀ owner ∈ op.owners, ∀ i ∈ Handle.path owner, ledgers i) : Within names ledgers op
  | setBudget {i budget} (owned : ledgers i) : Within names ledgers (.setBudget i budget)

section Parties

variable {names : String → Prop} {ledgers : Fin T.size → Prop}

theorem Op.recast_id {op : Op T Arena} (listed : ¬ op.IsBookkeeping) : op.recast id = .ok op := by
  cases op with
  | setBudget | ledger | renderLedger | isLive | allocate | deallocate | exchange | configure =>
    exact absurd trivial listed
  | _ => rfl

theorem Op.Within.named {op : Op T Arena} (within : op.Within names ledgers) :
    ∀ name ∈ op.names, names name := by
  cases within with
  | list _ named _ => exact named
  | setBudget => exact List.forall_mem_nil _

theorem Op.Within.not_isDirect {op : Op T Arena} (within : op.Within names ledgers) :
    ¬ op.IsDirect := by
  cases within with
  | list listed _ _ => exact (Op.not_isDirect_of_recast (Op.recast_id listed)).1
  | setBudget => exact id

variable {met : Nat → Nat → Prop} {alone joint : Session T Arena}
  {request : Except Problem (Op T Arena)}

/-- A request of the party is served alike in both. -/
theorem Comparison.serve_own (sessions : (alongside own).Sessions mine met alone joint)
    (sound : Sound alone.store alone.owned) (sound' : Sound joint.store joint.owned)
    (within : ∀ op, request = .ok op → op.Within mine own)
    (supplied : ¬ RanOut (joint.clearEvents.serve request).1
      (joint.clearEvents.serve request).2.store) :
    (alongside own).Agrees mine met (alone.clearEvents.serve request)
      (joint.clearEvents.serve request) := by
  have preserved := preserved_alongside own
  cases request with
  | error problem => exact preserved.serve sessions sound sound' .problem supplied
  | ok op =>
    cases within op rfl with
    | list listed named owned =>
      exact preserved.serve sessions sound sound' (.op (Op.recast_id listed) named owned) supplied
    | @setBudget i budget =>
      have cleared := sessions.clearEvents preserved
      refine ⟨met, le_refl _, ⟨cleared.stores.setBudget i budget, cleared.directories⟩,
        fun _ _ => ?_⟩
      cases budget <;> rfl

/-- A request of another party spares the ledgers of this one, and serves itself from others. -/
theorem Comparison.serve_other
    (others : (beside own joint.store).Directories (fun name => ¬ mine name) Eq joint.registers
      joint.registers)
    (sound : Sound joint.store joint.owned)
    (within : ∀ op, request = .ok op → op.Within (fun name => ¬ mine name) (fun i => ¬ own i))
    (supplied : ¬ RanOut (joint.clearEvents.serve request).1
      (joint.clearEvents.serve request).2.store) :
    Store.Spares own joint.store (joint.clearEvents.serve request).2.store ∧
      (beside own joint.store).Directories (fun name => ¬ mine name) Eq
        (joint.clearEvents.serve request).2.registers
        (joint.clearEvents.serve request).2.registers := by
  have start : (beside own joint.store).Sessions (fun name => ¬ mine name) Eq joint joint :=
    ⟨⟨rfl, rfl, .refl _⟩, others⟩
  have served (serves : (beside own joint.store).Serves (fun name => ¬ mine name) request request) :
      Store.Spares own joint.store (joint.clearEvents.serve request).2.store ∧
        (beside own joint.store).Directories (fun name => ¬ mine name) Eq
          (joint.clearEvents.serve request).2.registers
          (joint.clearEvents.serve request).2.registers := by
    obtain ⟨_, -, ⟨⟨rfl, -, spares⟩, after⟩, -⟩ :=
      (preserved_beside own joint.store).serve start sound sound serves supplied
    exact ⟨spares, after⟩
  cases request with
  | error problem => exact served .problem
  | ok op =>
    cases within op rfl with
    | list listed named owned => exact served (.op (Op.recast_id listed) named owned)
    | @setBudget i budget owned =>
      have cleared := start.clearEvents (preserved_beside own joint.store)
      exact ⟨cleared.stores.2.2.setBudget owned budget, others⟩

theorem Session.get?_serve (sound : Sound joint.store joint.owned)
    (within : ∀ op, request = .ok op → op.Within names ledgers)
    (survived : (joint.clearEvents.serve request).1.isAbort = false) {name : String}
    (foreign : ¬ names name) :
    (joint.clearEvents.serve request).2.registers.get? name = joint.registers.get? name := by
  have quiet := (sound.cleared.serve fun op same => (within op same).not_isDirect).1
  cases request with
  | error problem => rfl
  | ok op =>
    exact get?_perform_of_not_mem ⟨survived, quiet⟩ fun mentioned =>
      foreign ((within op rfl).named name mentioned)

/-- The party's session alone, and the session of all: they go together on the party's side, and all
other names hold no nodes of its ledgers. -/
structure Companions (own : Fin T.size → Prop) (mine : String → Prop) (met : Nat → Nat → Prop)
    (alone joint : Session T Arena) : Prop where
  sessions : (Comparison.alongside own).Sessions mine met alone.clearEvents joint.clearEvents
  others : (Comparison.beside own joint.store).Directories (fun name => ¬ mine name) Eq
    joint.registers joint.registers
  sound : Sound alone.store alone.owned
  sound' : Sound joint.store joint.owned

/-- The party is served in both. -/
theorem Companions.serve_own (companions : Companions own mine met alone joint)
    (within : ∀ op, request = .ok op → op.Within mine own)
    (supplied : ¬ RanOut (joint.clearEvents.serve request).1
      (joint.clearEvents.serve request).2.store) :
    ∃ later, met ≤ later ∧
      (∃ store store', (Comparison.alongside own).Stores later store store') ∧
      (Comparison.alongside own).Matching mine later (alone.clearEvents.serve request)
        (joint.clearEvents.serve request) ∧
      (joint.clearEvents.serve request).1.isAbort = (alone.clearEvents.serve request).1.isAbort ∧
      ((alone.clearEvents.serve request).1.isAbort = false →
        Companions own mine later (alone.clearEvents.serve request).2
          (joint.clearEvents.serve request).2) := by
  have listed : ∀ op, request = .ok op → ¬ op.IsDirect := fun op same =>
    (within op same).not_isDirect
  obtain ⟨later, grown, sessions, replies⟩ := Comparison.serve_own companions.sessions
    companions.sound.cleared companions.sound'.cleared within supplied
  obtain ⟨addr, -, renames⟩ := sessions.stores.arena.exists_renames
  have aborts :=
    (congrArg Reply.isAbort (replies addr renames)).trans (Relabelling.isAbort_reply _ _)
  refine ⟨later, grown, ⟨_, _, sessions.stores⟩, ⟨later, le_refl _, sessions, replies⟩, aborts,
    fun survived => ?_⟩
  refine ⟨sessions.clearEvents (Comparison.preserved_alongside own), fun name foreign => ?_,
    (companions.sound.cleared.serve listed).2 survived,
    (companions.sound'.cleared.serve listed).2 (aborts.trans survived)⟩
  rw [Session.get?_serve companions.sound' within (aborts.trans survived) foreign]
  exact companions.others.rebase _ name foreign

theorem Companions.serve_other (companions : Companions own mine met alone joint)
    (within : ∀ op, request = .ok op → op.Within (fun name => ¬ mine name) (fun i => ¬ own i))
    (supplied : ¬ RanOut (joint.clearEvents.serve request).1
      (joint.clearEvents.serve request).2.store)
    (survived : (joint.clearEvents.serve request).1.isAbort = false) :
    Companions own mine met alone (joint.clearEvents.serve request).2 := by
  have listed : ∀ op, request = .ok op → ¬ op.IsDirect := fun op same =>
    (within op same).not_isDirect
  obtain ⟨spares, others⟩ :=
    Comparison.serve_other companions.others companions.sound' within supplied
  have alongside := companions.sessions.stores
  refine ⟨⟨⟨fun _ _ => rfl, fun i mine => ?_, ?_⟩, fun name named => ?_⟩, others.rebase _,
    companions.sound, (companions.sound'.cleared.serve listed).2 survived⟩
  · have alike := alongside.ledgers i mine
    rwa [show joint.clearEvents.store.ledger i = _ from (spares.ledgers i mine).symm] at alike
  · exact alongside.arena.advance spares.advanced spares.stop
  · have kept := Session.get?_serve companions.sound' within survived (not_not.2 named)
    have here := companions.sessions.directories name named
    rwa [show joint.clearEvents.registers.get? name = _ from kept.symm] at here

end Parties

section Runs

/-- Requests of a party, on the left, between requests of others. -/
abbrev Interleaving (T : Layering) : Type :=
  List (Except Problem (Op T Arena) ⊕ Except Problem (Op T Arena))

namespace Interleaving

def left (requests : Interleaving T) : List (Except Problem (Op T Arena)) :=
  requests.filterMap Sum.getLeft?

def all (requests : Interleaving T) : List (Except Problem (Op T Arena)) :=
  requests.map (Sum.elim id id)

theorem mem_left {request : Except Problem (Op T Arena)} {requests : Interleaving T} :
    request ∈ requests.left ↔ .inl request ∈ requests := by
  simp only [left, List.mem_filterMap, Sum.getLeft?_eq_some_iff, exists_eq_right]

theorem mem_all {request : Except Problem (Op T Arena)} {requests : Interleaving T} :
    request ∈ requests.all ↔ .inl request ∈ requests ∨ .inr request ∈ requests := by
  simp only [all, List.mem_map, Sum.exists, Sum.elim_inl, Sum.elim_inr, id_eq, exists_eq_right]

/-- Out of the results of all requests, those of the party. -/
def select {α : Type} : Interleaving T → List α → List α
  | .inl _ :: requests, result :: results => result :: select requests results
  | .inr _ :: requests, _ :: results => select requests results
  | _, _ => []

section Cons

variable (request : Except Problem (Op T Arena)) (requests : Interleaving T)

theorem left_inl : left (.inl request :: requests) = request :: requests.left := rfl

theorem left_inr : left (.inr request :: requests) = requests.left := rfl

theorem all_inl : all (.inl request :: requests) = request :: requests.all := rfl

theorem all_inr : all (.inr request :: requests) = request :: requests.all := rfl

theorem select_inl {α : Type} (result : α) (results : List α) :
    select (.inl request :: requests) (result :: results) = result :: requests.select results := rfl

theorem select_inr {α : Type} (result : α) (results : List α) :
    select (.inr request :: requests) (result :: results) = requests.select results := rfl

end Cons

@[simp] theorem select_nil {α : Type} (requests : Interleaving T) :
    requests.select ([] : List α) = [] := by
  rcases requests with _ | ⟨_ | _, _⟩ <;> rfl

theorem length_select {α : Type} {requests : Interleaving T} {results : List α}
    (served : results.length = requests.all.length) :
    (requests.select results).length = requests.left.length := by
  induction requests generalizing results with
  | nil => cases results <;> rfl
  | cons request requests ih =>
    cases results with
    | nil => cases served
    | cons result results =>
      cases request with
      | inl => exact congrArg Nat.succ (ih (Nat.succ.inj served))
      | inr => exact ih (Nat.succ.inj served)

theorem forall₂_select {α β : Type} {same : α → β → Prop} (requests : Interleaving T)
    {results : List α} {results' : List β} (sames : List.Forall₂ same results results') :
    List.Forall₂ same (requests.select results) (requests.select results') := by
  induction requests generalizing results results' with
  | nil => cases sames <;> exact .nil
  | cons request requests ih =>
    cases sames with
    | nil =>
      rw [select_nil, select_nil]
      exact .nil
    | cons here sames =>
      cases request with
      | inl => exact .cons here (ih sames)
      | inr => exact ih sames

end Interleaving

variable {met : Nat → Nat → Prop} {alone joint : Session T Arena}

/-- What the party meets in the session of all matches what it meets alone. -/
theorem Companions.trails (companions : Companions own mine met alone joint)
    (requests : Interleaving T) (first : ∀ op, .inl (.ok op) ∈ requests → op.Within mine own)
    (second : ∀ op, .inr (.ok op) ∈ requests →
      op.Within (fun name => ¬ mine name) fun i => ¬ own i)
    (supplied : ∀ result ∈ joint.trail requests.all, ¬ RanOut result.1 result.2.store) :
    ∃ later, met ≤ later ∧
      (∃ store store', (Comparison.alongside own).Stores later store store') ∧
      List.Forall₂ ((Comparison.alongside own).Matching mine later)
        ((alone.trail requests.left).take (requests.select (joint.trail requests.all)).length)
        (requests.select (joint.trail requests.all)) := by
  induction requests generalizing met alone joint with
  | nil => exact ⟨met, le_refl _, ⟨_, _, companions.sessions.stores⟩, .nil⟩
  | cons request requests ih =>
    have onward {met : Nat → Nat → Prop} {alone joint : Session T Arena}
        (companions : Companions own mine met alone joint) :=
      ih companions (fun op member => first op (.tail _ member))
        fun op member => second op (.tail _ member)
    cases request with
    | inl request =>
      rw [Interleaving.left_inl, Interleaving.all_inl, Session.trail_cons, Session.trail_cons,
        Interleaving.select_inl, List.length_cons, List.take_succ_cons]
      rw [Interleaving.all_inl, Session.trail_cons] at supplied
      obtain ⟨here, rest⟩ := List.forall_mem_cons.1 supplied
      obtain ⟨now, grown, stores, matching, aborts, kept⟩ :=
        companions.serve_own (fun op same => first op (same ▸ .head _)) here
      rw [aborts] at rest ⊢
      cases survived : (alone.clearEvents.serve request).1.isAbort with
      | true =>
        rw [if_pos rfl, if_pos rfl, Interleaving.select_nil]
        exact ⟨now, grown, stores, .cons matching .nil⟩
      | false =>
        rw [survived] at rest
        obtain ⟨later, more, stores, trails⟩ := onward (kept survived) rest
        exact ⟨later, grown.trans more, stores, .cons (matching.mono more) trails⟩
    | inr request =>
      rw [Interleaving.left_inr, Interleaving.all_inr, Session.trail_cons,
        Interleaving.select_inr]
      rw [Interleaving.all_inr, Session.trail_cons] at supplied
      obtain ⟨here, rest⟩ := List.forall_mem_cons.1 supplied
      cases survived : (joint.clearEvents.serve request).1.isAbort with
      | true =>
        rw [if_pos rfl, Interleaving.select_nil]
        exact ⟨met, le_refl _, ⟨_, _, companions.sessions.stores⟩, .nil⟩
      | false =>
        rw [survived] at rest
        exact onward (companions.serve_other (fun op same => second op (same ▸ .head _)) here
          survived) rest

/-- A request of the party, served alone and served between requests of others: the same reply, the
same events, the same books and the same lists. -/
structure Undisturbed (own : Fin T.size → Prop) (mine : String → Prop) (addr : Nat → Nat)
    (alone joint : Reply T × Machine T Arena) : Prop where
  reply : joint.1 = (Relabelling.moved T addr).reply alone.1
  events : joint.2.store.events = alone.2.store.events.map (Relabelling.moved T addr).event
  report : ∀ i, own i → LedgerReport.ofStore joint.2.store i =
    (Relabelling.moved T addr).ledgerReport (LedgerReport.ofStore alone.2.store i)
  view : alone.1.isAbort = false → ∀ name, mine name →
    joint.2.view name = (alone.2.view name).map (Option.map (Relabelling.moved T addr).register)

theorem Undisturbed.of_matching {addr : Nat → Nat} (increasing : StrictMono addr)
    (renames : Comparison.Renames met addr) {expected expected' : Reply T × Session T Arena}
    {result result' : Reply T × Machine T Arena} (matched : Matches expected result)
    (matching : (Comparison.alongside own).Matching mine met expected expected')
    (matched' : Matches expected' result') : Undisturbed own mine addr result result' := by
  obtain ⟨now, before, sessions, replies⟩ := matching
  have renames := renames.mono before
  refine ⟨?_, ?_, fun i owned => ?_, fun survived name named => ?_⟩
  · rw [matched.reply, matched'.reply, replies addr renames]
    rfl
  · rw [matched.store, matched'.store, Store.events, Store.events, List.map_reverse,
      sessions.stores.events addr renames]
  · rw [matched.store, matched'.store]
    exact sessions.stores.report owned increasing renames
  · rw [matched.reply] at survived
    have survived' : expected'.1.isAbort = false := by
      rw [replies addr renames, Relabelling.isAbort_reply, survived]
    rw [(matched.represents survived).view_eq, (matched'.represents survived').view_eq,
      sessions.lists_eq renames named]
    rfl

theorem Companions.opened (budgets : Fin T.size → Option Nat) (arena : Arena) :
    Companions own mine (fun _ _ => False) (.opened (.opened budgets arena))
      (.opened (.opened budgets arena)) where
  sessions := ⟨.opened budgets arena, fun _ _ => .none⟩
  others _ _ := .none
  sound := .opened (Arena.neverReuses arena) budgets
  sound' := .opened (Arena.neverReuses arena) budgets

/-- Independent parties do not disturb one another. -/
theorem Machine.undisturbed_trail (budgets : Fin T.size → Option Nat) (arena : Arena)
    (mine : String → Prop) (own : Fin T.size → Prop) (requests : Interleaving T)
    (first : ∀ op, .inl (.ok op) ∈ requests → op.Within mine own)
    (second : ∀ op, .inr (.ok op) ∈ requests →
      op.Within (fun name => ¬ mine name) fun i => ¬ own i) :
    ∃ alone joint, (opened (.opened budgets arena)).trail requests.left = .ok alone ∧
      (opened (.opened budgets arena)).trail requests.all = .ok joint ∧
      ((∀ result ∈ joint, ¬ RanOut result.1 result.2.store) → ∃ addr, StrictMono addr ∧
        List.Forall₂ (Undisturbed own mine addr) (alone.take (requests.select joint).length)
          (requests.select joint) ∧
        ((∀ result ∈ joint, result.1.isAbort = false) →
          (requests.select joint).length = alone.length)) := by
  have fresh := Arena.neverReuses arena
  have listed : ∀ op, .ok op ∈ requests.left → ¬ op.IsDirect := fun op member =>
    (first op (Interleaving.mem_left.1 member)).not_isDirect
  have listed' : ∀ op, .ok op ∈ requests.all → ¬ op.IsDirect := fun op member =>
    (Interleaving.mem_all.1 member).elim (fun found => (first op found).not_isDirect)
      fun found => (second op found).not_isDirect
  obtain ⟨alone, went, matched⟩ := exists_trail budgets fresh listed
  obtain ⟨joint, went', matched'⟩ := exists_trail budgets fresh listed'
  refine ⟨alone, joint, went, went', fun supplied => ?_⟩
  obtain ⟨met, -, ⟨_, _, stores⟩, trails⟩ := (Companions.opened budgets arena).trails requests first
    second (Matches.forall_left (fun reply store => ¬ RanOut reply store) matched' supplied)
  obtain ⟨addr, increasing, renames⟩ := stores.arena.exists_renames
  have picked := Interleaving.forall₂_select requests matched'
  have same := Matches.forall₂ (Undisturbed.of_matching increasing renames)
    (List.forall₂_take _ matched) trails picked
  rw [picked.length_eq] at same
  refine ⟨addr, increasing, same, fun survived => ?_⟩
  have served := Session.length_trail
    (Matches.forall_left (fun reply _ => reply.isAbort = false) matched' survived)
  have whole := Interleaving.length_select (matched'.length_eq.symm.trans served)
  have reached := same.length_eq
  have bounded := Session.length_trail_le requests.left (.opened (.opened budgets arena))
  rw [matched.length_eq, ← whole] at bounded
  rw [List.length_take] at reached
  omega

/-- A party with a budget of three on two ledgers, one on the other, and another party on a third
ledger and on the arena itself. Each allocates, links and releases between the steps of the
other. -/
theorem Machine.undisturbed_trail_pair :
    let T : Layering := ⟨3, fun i => if i = 1 then some 0 else none, by decide⟩
    let own : Fin T.size → Prop := fun i => i.val < 2
    let mine : String → Prop := fun name => name ∈ ["front", "cut"]
    let requests : Interleaving T := [.inr (.ok (.node "other" .attempt none 10)),
      .inl (.ok (.setBudget (0 : Fin 3) (some 3))),
      .inl (.ok (.chain "front" .attempt (some (1 : Fin 3)) [1, 2])),
      .inr (.ok (.chain "back" .insist (some (2 : Fin 3)) [11, 12])), .inr (.error .badInput),
      .inl (.ok (.link "front" 0 none (some "cut"))), .inr (.ok (.release "other" none)),
      .inl (.ok (.pushFront "front" .attempt 3)), .inr (.ok (.setBudget (2 : Fin 3) (some 0))),
      .inl (.ok (.release "cut" none)), .inr (.ok (.pushFront "back" .attempt 13)),
      .inl (.ok (.node "cut" .attempt (some (0 : Fin 3)) 4)), .inl (.ok (.values "front"))]
    let start : Machine T Arena := opened (.opened (fun _ => none) (.ofCapacity 200))
    ∃ alone joint, start.trail requests.left = .ok alone ∧ start.trail requests.all = .ok joint ∧
      ∃ addr, StrictMono addr ∧
        List.Forall₂ (Undisturbed own mine addr) alone (requests.select joint) := by
  intro T own mine requests start
  have first : ∀ op, .inl (.ok op) ∈ requests → op.Within mine own := by
    intro op member
    simp only [requests, List.mem_cons, Sum.inl.injEq, Except.ok.injEq, reduceCtorEq,
      List.not_mem_nil, false_or, or_false] at member
    rcases member with rfl | rfl | rfl | rfl | rfl | rfl | rfl
    · exact .setBudget (by decide)
    all_goals exact .list id (by simp [Op.names, mine]) (by decide +kernel)
  have second : ∀ op, .inr (.ok op) ∈ requests →
      op.Within (fun name => ¬ mine name) fun i => ¬ own i := by
    intro op member
    simp only [requests, List.mem_cons, Sum.inr.injEq, Except.ok.injEq, reduceCtorEq,
      List.not_mem_nil, false_or, or_false] at member
    rcases member with rfl | rfl | rfl | rfl | rfl
    case inr.inr.inr.inl => exact .setBudget (by decide)
    all_goals exact .list id (by simp [Op.names, mine]) (by decide +kernel)
  have lasting : start.trailAll (fun reply store => reply.isAbort = false ∧ ¬ RanOut reply store)
      requests.all = true := by
    decide +kernel
  obtain ⟨given, ran, calm⟩ := exists_of_trailAll lasting
  obtain ⟨alone, joint, went, went', undisturbed⟩ :=
    undisturbed_trail (fun _ => none) (.ofCapacity 200) mine own requests first second
  obtain rfl := Except.ok.inj (ran.symm.trans went')
  obtain ⟨addr, increasing, same, whole⟩ := undisturbed fun result member => (calm result member).2
  rw [whole fun result member => (calm result member).1, List.take_length] at same
  exact ⟨alone, given, went, went', addr, increasing, same⟩

end Runs

end ChainLedger
