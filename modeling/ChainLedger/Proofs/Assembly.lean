import ChainLedger.Proofs.Alongside
import ChainLedger.Proofs.Construction

set_option autoImplicit false

namespace ChainLedger

variable {T : Layering} {π : Type}

theorem Tail.addr_of_mem_records {tail : Tail T} {addr : Nat} {record : Record T}
    (member : (addr, record) ∈ tail.records) : addr ∈ tail.map Node.addr := by
  have listed := Multiset.mem_map_of_mem Prod.fst member
  rwa [records, map_fst_segment, Multiset.mem_coe] at listed

theorem Registers.nodes_eq_elim (name : String) (registers : Registers T) :
    registers.nodes name = (registers.get? name).elim [] Register.nodes := by
  rw [nodes]
  cases registers.get? name <;> rfl

namespace Represents

variable {machine other after : Machine T π} {session session' : Session T π} {name : String}

theorem register_eq (represents : Represents 0 machine session)
    (represents' : Represents 0 other session') (same : other.view name = machine.view name) :
    session'.registers.get? name = session.registers.get? name :=
  represents'.found_register (same.trans (represents.view_eq name))

theorem nodes_eq (represents : Represents 0 machine session)
    (represents' : Represents 0 other session') (same : other.view name = machine.view name) :
    session'.nodes name = session.nodes name := by
  rw [Session.nodes, Session.nodes, Registers.nodes, Registers.nodes,
    represents.register_eq represents' same]

theorem first_vacant (represents : Represents 0 machine session)
    (vacant : machine.view name = .ok none) : machine.first name = none := by
  rw [represents.first, Session.nodes, Registers.nodes, represents.found_register vacant]
  rfl

/-- A record is found if it belongs to one of the lists. -/
theorem found_iff (represents : Represents 0 machine session) {addr : Nat} {record : Record T} :
    machine.memory.get? addr = some record ↔
      ∃ name, (addr, record) ∈ Tail.records (session.nodes name) := by
  have held := (represents.memory.found addr record).trans (by rw [zero_add])
  refine held.trans ⟨Registers.mem_records, ?_⟩
  rintro ⟨name, member⟩
  rw [session.registers.records_eq name]
  exact Multiset.mem_add.2 (Or.inl member)

/-- Lists decide the memory in which they are kept. -/
theorem memory_eq (represents : Represents 0 machine session)
    (represents' : Represents 0 other session')
    (same : ∀ name, session.nodes name = session'.nodes name) : machine.memory = other.memory := by
  have equal : ∀ addr, other.memory.get? addr = machine.memory.get? addr := by
    intro addr
    refine Option.ext fun record => ?_
    rw [represents.found_iff, represents'.found_iff]
    simp only [same]
  exact represents.memory.unique (represents.memory.congr equal)

theorem nodes_of_becomes {store : Store T π} {register : Option (Register T)}
    (represents : Represents 0 machine session)
    (becomes : machine.Becomes name register store after)
    (represents' : Represents 0 after session') :
    session'.registers.get? name = register ∧
      ∀ place, place ≠ name → session'.nodes place = session.nodes place := by
  exact ⟨represents'.found_register becomes.view, fun place differs =>
    represents.nodes_eq represents' (becomes.others place differs)⟩

/-- Two machines that have come from one, with the same nodes under the name in question, have the
same records. -/
theorem memory_of_becomes {store store' : Store T π} {register register' : Option (Register T)}
    (represents : Represents 0 machine session)
    (becomes : machine.Becomes name register store after)
    (becomes' : machine.Becomes name register' store' other)
    (same : register.elim [] Register.nodes = register'.elim [] Register.nodes) :
    after.memory = other.memory := by
  obtain ⟨first, shown⟩ := becomes.represented
  obtain ⟨second, shown'⟩ := becomes'.represented
  obtain ⟨here, others⟩ := represents.nodes_of_becomes becomes shown
  obtain ⟨here', others'⟩ := represents.nodes_of_becomes becomes' shown'
  refine shown.memory_eq shown' fun place => ?_
  by_cases differs : place = name
  · subst differs
    rw [Session.nodes, Session.nodes, Registers.nodes_eq_elim, Registers.nodes_eq_elim, here, here',
      same]
  · rw [others place differs, others' place differs]

theorem free_of_becomes {store : Store T π} {register : Option (Register T)}
    (represents : Represents 0 machine session)
    (becomes : machine.Becomes name register store after)
    {addr : Nat} (free : machine.memory.get? addr = none)
    (off : ∀ held ∈ register, addr ∉ held.nodes.map Node.addr) : after.memory.get? addr = none := by
  obtain ⟨onward, represents'⟩ := becomes.represented
  obtain ⟨here, others⟩ := represents.nodes_of_becomes becomes represents'
  cases found : after.memory.get? addr with
  | none => rfl
  | some record =>
    obtain ⟨place, member⟩ := represents'.found_iff.1 found
    exfalso
    by_cases differs : place = name
    · subst differs
      rw [Session.nodes, Registers.nodes, here] at member
      cases register with
      | none => exact Multiset.notMem_zero _ member
      | some held => exact off held rfl (Tail.addr_of_mem_records member)
    · rw [others place differs] at member
      rw [represents.found_iff.2 ⟨place, member⟩] at free
      cases free

end Represents

variable [Parent π]

theorem Machine.put_vacant {machine : Machine T π} {name : String}
    (vacant : machine.first name = none) (holder : Holder T) :
    machine.put name holder =
      .ok (none, { machine with holders := machine.holders.put name holder }) := by
  rw [put, vacant, discard, Depot.discard, Depot.discardAfter]
  rfl

theorem Session.link_single {session : Session T π} {name spare : String} {node : Node T}
    (differs : spare ≠ name) (here : session.registers.get? spare = some (.loose [node])) :
    session.link spare 0 (some name) none = (.answer (.ofTail []), ⟨session.store,
      (session.registers.erase name).put spare (.loose (node :: session.nodes name))⟩) := by
  have apart : some name ≠ some spare := fun same => differs (Option.some.inj same).symm
  have still : (session.registers.erase name).get? spare = some (.loose [node]) := by
    rw [Directory.get?_erase, if_neg differs.symm, here]
  have single : session.nodes spare = [node] := by
    rw [Session.nodes, Registers.nodes, here]
    rfl
  have cut : Tail.cutAfter? 0 [node] = some ([node], []) := rfl
  simp only [link, apart, ↓reduceIte, single, cut, take?, take, setNodes, still]
  rfl

theorem Session.move_vacant {session : Session T π} {name spare : String} (differs : spare ≠ name)
    (vacant : session.registers.get? name = none) :
    session.move spare (some name) = (.answer (.ofTail (session.nodes spare)), ⟨session.store,
      (session.registers.erase spare).put name (.loose (session.nodes spare))⟩) := by
  have gone : (session.registers.erase spare).get? name = none := by
    rw [Directory.get?_erase, if_neg differs, vacant]
  have stored := put_vacant { session with registers := session.registers.erase spare } gone
    (.loose (session.nodes spare))
  simp only [move, take, stored]
  rfl

/-- A node is allocated by itself, the list so far is linked behind it, and it becomes the list. -/
def Op.handwork (name spare : String) (demand : Demand) (owner : Handle T) (value : Int64) :
    List (Op T π) :=
  [.node spare demand owner value, .link spare 0 (some name) none, .move spare (some name)]

/-- The list under a name that is linked together by hand. There is none before the first node. -/
def Tail.loose? : Tail T → Option (Register T)
  | [] => none
  | node :: rest => some (.loose (node :: rest))

theorem Tail.nodes_of_loose? {built : Tail T} {held : Register T}
    (kind : built.loose? = some held) : held.nodes = built := by
  cases built with
  | nil => cases kind
  | cons node rest =>
    cases kind
    rfl

namespace Allocated

variable {demand : Demand} {owner : Handle T} {pending : List Int64} {nodes : Tail T}
  {before after : Store T π}

theorem values (allocated : Allocated demand owner pending nodes before after) :
    Tail.values nodes = pending.reverse := by
  induction allocated with
  | nil => rfl
  | cons granted _ ih =>
    rw [Tail.values, List.map_append, ← Tail.values, ih, List.reverse_cons, List.map_singleton,
      (Node.of_allocate granted).1]

theorem length (allocated : Allocated demand owner pending nodes before after) :
    nodes.length = pending.length := by
  have same := congrArg List.length allocated.values
  rwa [Tail.values, List.length_map, List.length_reverse] at same

/-- Nodes are allocated until the values are used up or the next one cannot be allocated. -/
theorem exists_split (demand : Demand) (owner : Handle T) (pending : List Int64)
    (store : Store T π) :
    ∃ taken rest nodes cut, pending = taken ++ rest ∧
      Allocated demand owner taken nodes store cut ∧
      ∀ value ∈ rest.head?, ∃ failure after,
        Node.allocate demand owner value cut = (.error failure, after) := by
  induction pending generalizing store with
  | nil => exact ⟨[], [], [], store, rfl, .nil, fun value none => by cases none⟩
  | cons value pending ih =>
    rcases asked : Node.allocate demand owner value store with ⟨failure | node, between⟩
    · refine ⟨[], value :: pending, [], store, rfl, .nil, fun other first => ?_⟩
      cases first
      exact ⟨failure, between, asked⟩
    · obtain ⟨taken, rest, nodes, cut, rfl, allocated, stopped⟩ := ih between
      exact ⟨value :: taken, rest, nodes ++ [node], cut, rfl, .cons asked allocated, stopped⟩

/-- A build that comes to its end has allocated all of its nodes. -/
theorem of_buildOnto {total : Nat}
    (built : Chain.buildOnto demand owner total pending [] before = (.ok nodes, after)) :
    Allocated demand owner pending nodes before after := by
  obtain ⟨taken, rest, row, cut, rfl, allocated, stopped⟩ :=
    exists_split demand owner pending before
  rw [allocated.buildOnto, List.append_nil] at built
  cases rest with
  | nil =>
    cases built
    rwa [List.append_nil]
  | cons value more =>
    obtain ⟨failure, left, failed⟩ := stopped value rfl
    cases failure with
    | refused =>
      simp only [Chain.buildOnto, failed] at built
      split at built <;> cases built
    | fault fault =>
      simp only [Chain.buildOnto, failed] at built
      cases built
    | aborted layout =>
      simp only [Chain.buildOnto, failed] at built
      cases built

end Allocated

namespace Represents

variable {machine : Machine T π} {session : Session T π} {name spare : String} {demand : Demand}
  {owner : Handle T} {value : Int64} {node : Node T} {nodes built : Tail T} {store : Store T π}

theorem performs_empty (represents : Represents 0 machine session)
    (vacant : machine.view name = .ok none) (owner : Handle T) :
    ∃ after, machine.perform (.empty name owner) = .ok (.answer (.count 0), after) ∧
      machine.Becomes name (some (.chain ⟨[], owner⟩)) machine.store after := by
  have absent := represents.found_register vacant
  have same : machine.store = session.store := represents.store
  have expected : session.empty name owner =
      (.answer (.count 0), ⟨session.store, session.registers.put name (.chain ⟨[], owner⟩)⟩) := by
    rw [Session.empty, Session.put_vacant session absent]
    rfl
  rw [same]
  exact represents.performs_put (expected ▸ represents.empty_outcome name owner) rfl fun _ _ => rfl

theorem performs_node (represents : Represents 0 machine session)
    (vacant : machine.view name = .ok none)
    (granted : Node.allocate demand owner value machine.store = (.ok node, store))
    (free : machine.memory.get? node.addr = none) :
    ∃ after, machine.perform (.node name demand owner value) = .ok (.answer (.value value), after) ∧
      machine.Becomes name (some (.loose [node])) store after := by
  have absent := represents.found_register vacant
  have ended : ∃ result, machine.perform (.node name demand owner value) = .ok result := by
    have allocated : machine.depot.allocate demand owner value =
        .ok (.ok node.addr, ⟨store, machine.memory.write node.addr ⟨value, none, owner⟩⟩) := by
      have free' : machine.depot.memory.get? node.addr = none := free
      have granted' : Node.allocate demand owner value machine.depot.store = _ := granted
      simp only [Depot.allocate, granted', free']
      rfl
    simp only [Machine.perform, Machine.node, allocated, ok_bind]
    rw [Machine.put_vacant]
    · exact ⟨_, rfl⟩
    · exact represents.first_vacant vacant
  have same : session.store = machine.store := represents.store.symm
  have expected : session.node name demand owner value =
      (.answer (.value value), ⟨store, session.registers.put name (.loose [node])⟩) := by
    have stored := Session.put_vacant { session with store } absent (.loose [node])
    simp only [Session.node, same, granted, stored, (Node.of_allocate granted).1]
    rfl
  exact represents.performs_put
    (expected ▸ (represents.node_outcome (Or.inl trivial) name demand owner value).careful ended)
    rfl fun _ _ => rfl

theorem performs_pushFront (represents : Represents 0 machine session)
    (found : machine.view name = .ok (some (.chain ⟨built, owner⟩)))
    (granted : Node.allocate demand owner value machine.store = (.ok node, store))
    (free : machine.memory.get? node.addr = none) :
    ∃ after, machine.perform (.pushFront name demand value) = .ok (.answer .done, after) ∧
      machine.Becomes name (some (.chain ⟨node :: built, owner⟩)) store after := by
  have here := represents.found_register found
  have same : session.store = machine.store := represents.store.symm
  have ended : ∃ result, machine.perform (.pushFront name demand value) = .ok result := by
    have held := represents.holds name
    rw [session.nodes_of_chain here] at held
    obtain ⟨left, pushed, -⟩ := Depot.pushOnto_of_free held free granted
    have pushed' : machine.depot.pushOnto demand owner value (Tail.link built) = _ := pushed
    simp only [Machine.perform, Machine.pushFront, represents.get?, here, Option.map_some,
      Register.holder, pushed', ok_bind]
    exact ⟨_, rfl⟩
  have expected : session.pushFront name demand value =
      (.answer .done, ⟨store, session.registers.put name (.chain ⟨node :: built, owner⟩)⟩) := by
    simp only [Session.pushFront, here, Chain.pushFront, same, granted]
  exact represents.performs_put
    (expected ▸ (represents.pushFront_outcome (Or.inl trivial) name demand value).careful ended) rfl
    fun _ _ => rfl

theorem performs_chain (represents : Represents 0 machine session)
    (vacant : machine.view name = .ok none) {values : List Int64}
    (allocated : Allocated demand owner values.reverse nodes machine.store store)
    (apart : (nodes.map Node.addr).Nodup)
    (free : ∀ node ∈ nodes, machine.memory.get? node.addr = none) :
    ∃ after, machine.perform (.chain name demand owner values) =
        .ok (.answer (.count values.length), after) ∧
      machine.Becomes name (some (.chain ⟨nodes, owner⟩)) store after := by
  have absent := represents.found_register vacant
  have same : session.store = machine.store := represents.store.symm
  have ended : ∃ result, machine.perform (.chain name demand owner values) = .ok result := by
    have start : machine.memory.Holds (Tail.records ([] : Tail T) + session.registers.records) :=
      represents.memory
    obtain ⟨left, held, made⟩ := allocated.depot_buildOnto values.length [] start apart free
    rw [List.append_nil, List.append_nil] at made
    rw [List.append_nil] at held
    have made' : machine.depot.build demand owner values = .ok (.ok nodes.link, ⟨store, left⟩) :=
      made
    simp only [Machine.perform, Machine.chain, made', held.gather, ok_bind]
    rw [Machine.put_vacant]
    · exact ⟨_, rfl⟩
    · exact represents.first_vacant vacant
  have made := allocated.buildOnto values.length [] []
  rw [List.append_nil, List.append_nil] at made
  have expected : session.chain name demand owner values =
      (.answer (.count values.length),
        ⟨store, session.registers.put name (.chain ⟨nodes, owner⟩)⟩) := by
    have stored := Session.put_vacant { session with store } absent
      (.chain ⟨nodes, owner⟩)
    have length := allocated.length
    rw [List.length_reverse] at length
    simp only [Session.chain, Chain.build, same, made, Chain.buildOnto, stored, Chain.length,
      length]
    rfl
  exact represents.performs_put
    (expected ▸ (represents.chain_outcome (Or.inl trivial) name demand owner values).careful ended)
    rfl fun _ _ => rfl

theorem performs_handwork (represents : Represents 0 machine session) (differs : spare ≠ name)
    (vacant : machine.view spare = .ok none) (found : machine.view name = .ok (Tail.loose? built))
    (granted : Node.allocate demand owner value machine.store = (.ok node, store))
    (free : machine.memory.get? node.addr = none) :
    ∃ replies after,
      machine.performAll (Op.handwork name spare demand owner value) = .ok (replies, after) ∧
      Survived replies ∧
      machine.Becomes name (some (.loose (node :: built))) store after := by
  obtain ⟨first, allocated, aside⟩ := represents.performs_node vacant granted free
  obtain ⟨⟨_, registers⟩, represents'⟩ := aside.represented
  obtain rfl : store = _ := aside.store.symm.trans represents'.store
  have here : registers.get? spare = some (.loose [node]) := represents'.found_register aside.view
  have others : ∀ other, other ≠ spare → registers.get? other = session.registers.get? other :=
    fun other apart => represents.register_eq represents' (aside.others other apart)
  have nodes : registers.nodes name = built := by
    rw [Registers.nodes, others name differs.symm, represents.found_register found]
    cases built <;> rfl
  have linked : Session.link ⟨store, registers⟩ spare 0 (some name) none =
      (.answer (.ofTail []),
        ⟨store, (registers.erase name).put spare (.loose (node :: built))⟩) := by
    rw [Session.link_single differs here, Session.nodes, nodes]
  have moved : Session.move
      ⟨store, (registers.erase name).put spare (.loose (node :: built))⟩ spare (some name) =
      (.answer (.ofTail (node :: built)),
        ⟨store, (((registers.erase name).put spare (.loose (node :: built))).erase spare).put name
          (.loose (node :: built))⟩) := by
    rw [Session.move_vacant differs]
    · simp only [Session.nodes, Registers.nodes, Directory.get?_put, ↓reduceIte, Register.nodes]
    · simp only [Directory.get?_erase, Directory.get?_put, differs, ↓reduceIte]
  obtain ⟨⟨_, second⟩, joined, rfl, -, kept⟩ :=
    (linked ▸ represents'.link_outcome spare 0 (some name) none : Outcome False _ _).exists_ok
  obtain ⟨⟨_, third⟩, renamed, rfl, -, kept'⟩ :=
    (moved ▸ (kept rfl).move_outcome spare (some name) : Outcome False _ _).exists_ok
  refine ⟨[.answer (.value value), .answer (.ofTail []), .answer (.ofTail (node :: built))], third,
    ?_, by simp [Survived, Reply.isAbort], represents.becomes (kept' rfl) ?_ fun other apart => ?_⟩
  · have joined' : first.perform (.link spare 0 (some name) none) = _ := joined
    have renamed' : second.perform (.move spare (some name)) = _ := renamed
    simp only [Op.handwork, Machine.performAll, allocated, joined', renamed', ok_bind, pure_eq_ok]
    rfl
  · simp only [Directory.get?_put, ↓reduceIte]
  · simp only [Directory.get?_put, Directory.get?_erase, apart.symm, ↓reduceIte]
    by_cases away : spare = other
    · subst away
      rw [if_pos rfl, represents.found_register vacant]
    · rw [if_neg away, if_neg away, others other (Ne.symm away)]

end Represents

/-- These operations put one more node in front of the list under a name, wherever the node can be
allocated and no record stands at its address. `form` is how the list is kept, and nothing is kept
under the spare name in between. -/
def Pushes (demand : Demand) (owner : Handle T) (name spare : String)
    (form : Tail T → Option (Register T)) (ops : Int64 → List (Op T π)) : Prop :=
  ∀ ⦃machine : Machine T π⦄ ⦃session value node built store⦄, Represents 0 machine session →
    machine.view spare = .ok none → machine.view name = .ok (form built) →
    Node.allocate demand owner value machine.store = (.ok node, store) →
    machine.memory.get? node.addr = none →
    ∃ replies after, machine.performAll (ops value) = .ok (replies, after) ∧ Survived replies ∧
      machine.Becomes name (form (node :: built)) store after

section Pushing

variable {demand : Demand} {owner : Handle T} {name spare : String}
  {form : Tail T → Option (Register T)} {ops : Int64 → List (Op T π)}

theorem pushes_pushFront :
    Pushes demand owner name spare (fun built => some (.chain ⟨built, owner⟩))
      fun value => ([.pushFront name demand value] : List (Op T π)) := by
  intro machine session value node built store represents _ found granted free
  obtain ⟨after, performed, becomes⟩ := represents.performs_pushFront found granted free
  refine ⟨[.answer .done], after, ?_, List.forall_mem_singleton.2 rfl, becomes⟩
  simp only [Machine.performAll, performed, ok_bind, pure_eq_ok]
  rfl

theorem pushes_handwork (differs : spare ≠ name) :
    Pushes demand owner name spare Tail.loose?
      (Op.handwork name spare demand owner : Int64 → List (Op T π)) :=
  fun _ _ _ _ _ _ represents vacant found granted free =>
    represents.performs_handwork differs vacant found granted free

theorem Machine.performAll_append {front back : List (Op T π)} {machine between after : Machine T π}
    {replies later : List (Reply T)} (ran : machine.performAll front = .ok (replies, between))
    (survived : Survived replies) (onward : between.performAll back = .ok (later, after)) :
    machine.performAll (front ++ back) = .ok (replies ++ later, after) := by
  induction front generalizing machine replies with
  | nil =>
    cases ran
    exact onward
  | cons op front ih =>
    obtain ⟨⟨reply, middle⟩, performed, rest⟩ := exists_of_bind_eq_ok ran
    simp only [List.cons_append, performAll, performed, ok_bind]
    cases aborts : reply.isAbort with
    | true =>
      simp only [aborts, ↓reduceIte] at rest
      cases rest
      have lasting := survived reply List.mem_cons_self
      rw [aborts] at lasting
      cases lasting
    | false =>
      simp only [aborts, Bool.false_eq_true, ↓reduceIte] at rest
      obtain ⟨⟨others, last⟩, going, rest⟩ := exists_of_bind_eq_ok rest
      cases rest
      rw [ih going fun reply member => survived reply (List.mem_cons_of_mem _ member)]
      rfl

/-- A list is put together node by node, whichever way each one is put in front. -/
theorem Pushes.all (pushes : Pushes demand owner name spare form ops) (differs : spare ≠ name)
    (kept : ∀ built, ∀ held ∈ form built, held.nodes = built) {pending : List Int64}
    {nodes built : Tail T} {before after : Store T π} {machine : Machine T π}
    {session : Session T π} (allocated : Allocated demand owner pending nodes before after)
    (represents : Represents 0 machine session) (store : machine.store = before)
    (vacant : machine.view spare = .ok none) (found : machine.view name = .ok (form built))
    (apart : ((nodes ++ built).map Node.addr).Nodup)
    (free : ∀ node ∈ nodes, machine.memory.get? node.addr = none) :
    ∃ replies final, machine.performAll (pending.flatMap ops) = .ok (replies, final) ∧
      Survived replies ∧ machine.Becomes name (form (nodes ++ built)) after final := by
  induction allocated generalizing machine session built with
  | nil =>
    refine ⟨[], machine, rfl, List.forall_mem_nil _, ⟨session, represents⟩, store, found, ?_⟩
    exact fun _ _ => rfl
  | @cons value pending node nodes _ _ _ granted _ ih =>
    subst store
    rw [List.append_assoc, List.singleton_append] at apart ⊢
    obtain ⟨further, here⟩ := List.forall_mem_append.1 free
    obtain ⟨replies, between, pushed, survived, becomes⟩ :=
      pushes represents vacant found granted (here node List.mem_cons_self)
    obtain ⟨onward, represents'⟩ := becomes.represented
    have still : ∀ other ∈ nodes, between.memory.get? other.addr = none := by
      intro other member
      refine represents.free_of_becomes becomes (further other member) fun held kind listed => ?_
      rw [kept _ held kind] at listed
      rw [List.map_append, List.nodup_append] at apart
      exact apart.2.2 _ (List.mem_map_of_mem member) _ listed rfl
    obtain ⟨later, final, ran, lasting, becomes'⟩ := ih represents' becomes.store
      ((becomes.others spare differs).trans vacant) becomes.view apart still
    refine ⟨replies ++ later, final, Machine.performAll_append pushed survived ran, ?_,
      becomes.trans becomes'⟩
    exact List.forall_mem_append.2 ⟨survived, lasting⟩

end Pushing

/-- The nodes of an arena stand one behind the other, the last one first. -/
theorem Allocated.addr_eq {demand : Demand} {owner : Handle T} {pending : List Int64}
    {nodes : Tail T} {before after : Store T Arena}
    (allocated : Allocated demand owner pending nodes before after) :
    ∀ index node, nodes[index]? = some node →
      node.addr = roundUp before.parent.next 8 + 24 * (nodes.length - 1 - index) := by
  induction allocated with
  | nil => exact fun index node here => by cases here
  | @cons value pending first nodes before between after granted _ ih =>
    intro index node here
    obtain ⟨entered, asked, rfl⟩ := Node.granted_of_allocate granted
    have placed := Arena.allocate_some (Store.allocateAlong_ok owner.path_nodup asked).1
    rw [recordLayout_arena] at placed
    obtain ⟨start, next, -⟩ := placed
    rw [List.length_append, List.length_singleton]
    by_cases inside : index < nodes.length
    · rw [List.getElem?_append_left inside] at here
      have further := ih index node here
      rw [Store.parent_emit, next, start, roundUp_roundUp_add] at further
      omega
    · rw [List.getElem?_append_right (Nat.le_of_not_lt inside)] at here
      rw [List.getElem?_singleton] at here
      obtain ⟨last, same⟩ := Option.ite_none_right_eq_some.1 here
      have gap : nodes.length + 1 - 1 - index = 0 := by omega
      rw [← Option.some.inj same, start, gap]
      rfl

/-- A list can be built in one go, pushed together value by value from the last one on, or linked
together by hand from single nodes. Wherever its nodes can be allocated, at addresses where no
record stands, all three succeed, with the same nodes in the same records and with the same store.
The nodes hold the values in order, and in an arena they stand one behind the other, the last one
first. -/
theorem builds_alike :
    (∀ {π : Type} [Parent π] {machine : Machine T π} {session : Session T π} {name spare : String}
      {demand : Demand} {owner : Handle T} {values : List Int64} {nodes : Tail T}
      {store : Store T π}, Represents 0 machine session → spare ≠ name →
      machine.view name = .ok none → machine.view spare = .ok none →
      Allocated demand owner values.reverse nodes machine.store store →
      (owner = none → (nodes.map Node.addr).Nodup) →
      (∀ node ∈ nodes, machine.memory.get? node.addr = none) →
      ∃ built pushed joined replies answers,
        machine.perform (.chain name demand owner values) =
          .ok (.answer (.count values.length), built) ∧
        Machine.performAll (.empty name owner ::
          values.reverse.map (.pushFront name demand)) machine = .ok (replies, pushed) ∧
        machine.performAll (values.reverse.flatMap (Op.handwork name spare demand owner)) =
          .ok (answers, joined) ∧
        machine.Becomes name (some (.chain ⟨nodes, owner⟩)) store built ∧
        machine.Becomes name (some (.chain ⟨nodes, owner⟩)) store pushed ∧
        machine.Becomes name (Tail.loose? nodes) store joined ∧
        pushed.memory = built.memory ∧ joined.memory = built.memory ∧
        Tail.values nodes = values ∧ (∀ node ∈ nodes, node.owner = owner) ∧
        store.events = machine.store.events ++
          nodes.reverse.map fun node => .nodeAllocated node.value node.addr) ∧
    ∀ {demand : Demand} {owner : Handle T} {values : List Int64} {nodes : Tail T}
      {before after : Store T Arena}, Allocated demand owner values.reverse nodes before after →
      ∀ index node, nodes[index]? = some node →
        node.addr = roundUp before.parent.next 8 + 24 * (values.length - 1 - index) := by
  refine ⟨?_, fun allocated index node here => ?_⟩
  · intro π _ machine session name spare demand owner values nodes store represents differs vacant
      unused allocated apart free
    have apart_nodes : (nodes.map Node.addr).Nodup := by
      cases owner with
      | none => exact apart rfl
      | some i => exact allocated.stands_alone.apart (List.ne_nil_of_mem (Layering.mem_path_self i))
    have apart_alone : ((nodes ++ []).map Node.addr).Nodup := by rwa [List.append_nil]
    obtain ⟨built, chained, whole⟩ := represents.performs_chain vacant allocated apart_nodes free
    obtain ⟨start, emptied, empty⟩ := represents.performs_empty vacant owner
    obtain ⟨onward, represents'⟩ := empty.represented
    have still : ∀ node ∈ nodes, start.memory.get? node.addr = none := fun node member =>
      represents.free_of_becomes empty (free node member) fun held kind => by
        cases kind
        exact List.not_mem_nil
    obtain ⟨replies, pushed, pushes, -, grown⟩ := pushes_pushFront.all differs
      (fun built held kind => by cases kind; rfl) allocated represents' empty.store
      ((empty.others spare differs).trans unused) empty.view apart_alone still
    have nothing : machine.view name = .ok (Tail.loose? ([] : Tail T)) := vacant
    obtain ⟨answers, joined, joins, -, linked⟩ := (pushes_handwork differs).all differs
      (fun built held => Tail.nodes_of_loose?) allocated represents rfl unused nothing apart_alone
      free
    rw [List.append_nil] at grown linked
    have pushed_whole := empty.trans grown
    have ran : Machine.performAll (.empty name owner ::
        values.reverse.map (.pushFront name demand)) machine =
          .ok (.answer (.count 0) :: replies, pushed) := by
      rw [← List.map_eq_flatMap] at pushes
      simp only [Machine.performAll, emptied, ok_bind, pushes, pure_eq_ok]
      rfl
    have values_eq := allocated.values
    rw [List.reverse_reverse] at values_eq
    refine ⟨built, pushed, joined, _, answers, chained, ran, joins, whole, pushed_whole, linked, ?_,
      ?_, values_eq, allocated.stands_alone.owned, allocated.events⟩
    · exact represents.memory_of_becomes pushed_whole whole rfl
    · refine represents.memory_of_becomes linked whole ?_
      cases nodes <;> rfl
  · rw [← List.length_reverse, ← allocated.length]
    exact allocated.addr_eq index node here

/-- Three values on one of two ledgers, in an arena that is not aligned at the start, beside a list
of the other one. -/
theorem builds_alike_fork :
    let before : List (Op .fork Arena) := [.chain "other" .attempt (some (2 : Fin 3)) [7, 8]]
    let nodes : Tail .fork := [⟨4200, 1, some (1 : Fin 3)⟩, ⟨4176, 2, some (1 : Fin 3)⟩,
      ⟨4152, 3, some (1 : Fin 3)⟩]
    let start : Machine .fork Arena := Machine.opened (.opened (fun _ => none) ⟨4099, 8192⟩)
    ∃ given machine store built pushed joined replies answers,
      Machine.performAll before start = .ok (given, machine) ∧
      machine.view "list" = .ok none ∧ machine.view "spare" = .ok none ∧
      Allocated .attempt (some (1 : Fin 3)) [3, 2, 1] nodes machine.store store ∧
      (∀ node ∈ nodes, machine.memory.get? node.addr = none) ∧
      machine.perform (.chain "list" .attempt (some (1 : Fin 3)) [1, 2, 3]) =
        .ok (.answer (.count 3), built) ∧
      Machine.performAll [.empty "list" (some (1 : Fin 3)), .pushFront "list" .attempt 3,
        .pushFront "list" .attempt 2, .pushFront "list" .attempt 1] machine =
          .ok (replies, pushed) ∧
      Machine.performAll ([3, 2, 1].flatMap
        (Op.handwork "list" "spare" .attempt (some (1 : Fin 3)))) machine = .ok (answers, joined) ∧
      built.store = store ∧ pushed.store = store ∧ joined.store = store ∧
      pushed.memory = built.memory ∧ joined.memory = built.memory ∧
      4200 = roundUp machine.store.parent.next 8 + 24 * 2 := by
  intro before nodes start
  have lasting : start.answersAll (fun reply => reply.isAbort = false) before = true := by
    decide +kernel
  obtain ⟨given, machine, reached, survived⟩ := Machine.exists_of_answersAll lasting
  have checked : (match Machine.performAll before start with
      | .ok (_, machine) => decide (machine.view "list" = .ok none ∧
          machine.view "spare" = .ok none ∧
          (Chain.buildOnto .attempt (some (1 : Fin 3)) 3 [3, 2, 1] [] machine.store).1 = .ok nodes ∧
          ∀ node ∈ nodes, machine.memory.get? node.addr = none)
      | .error _ => false) = true := by decide +kernel
  rw [reached] at checked
  obtain ⟨vacant, unused, ended, free⟩ := of_decide_eq_true checked
  obtain ⟨session, represents⟩ := Machine.exists_represents reached survived
  rcases made : Chain.buildOnto .attempt (some (1 : Fin 3)) 3 [3, 2, 1] [] machine.store with
    ⟨result, store⟩
  rw [made] at ended
  obtain rfl : result = .ok nodes := ended
  have allocated : Allocated .attempt (some (1 : Fin 3)) [3, 2, 1] nodes machine.store store :=
    .of_buildOnto made
  have differs : "spare" ≠ "list" := by decide
  have apart : some (1 : Fin 3) = none → (nodes.map Node.addr).Nodup := nofun
  obtain ⟨built, pushed, joined, replies, answers, chained, pushes, joins, whole, grown, linked,
    same, same', -⟩ := builds_alike.1 represents differs vacant unused
      (show Allocated .attempt (some (1 : Fin 3)) [1, 2, 3].reverse nodes _ _ from allocated) apart
      free
  have place := builds_alike.2
    (show Allocated .attempt (some (1 : Fin 3)) [1, 2, 3].reverse nodes _ _ from allocated) 0 _ rfl
  exact ⟨given, machine, store, built, pushed, joined, replies, answers, reached, vacant, unused,
    allocated, free, chained, pushes, joins, whole.store, grown.store, linked.store, same, same',
    place⟩

end ChainLedger
