import ChainLedger.Node

set_option autoImplicit false

namespace ChainLedger

/-- A possibly empty list of nodes. New nodes come from `owner`; the nodes already there may have
come from elsewhere. -/
structure Chain (T : Layering) where
  nodes : Tail T
  owner : Handle T
deriving DecidableEq

/-- The values `start`, `start + step`, and so on, `count` of them, wrapping around at 64 bits. -/
def progression (start : Int64) (count : Nat) (step : Int64) : List Int64 :=
  (List.range count).map fun i => start + Int64.ofNat i * step

namespace Chain

variable {T : Layering} {π : Type}

def empty (owner : Handle T) : Chain T :=
  ⟨[], owner⟩

def values (chain : Chain T) : List Int64 :=
  Tail.values chain.nodes

def length (chain : Chain T) : Nat :=
  chain.nodes.length

def isEmpty (chain : Chain T) : Bool :=
  chain.nodes.isEmpty

def head? (chain : Chain T) : Option (Node T) :=
  chain.nodes.head?

/-- The values read as digits of a number with base 31, modulo `2 ^ 64`. -/
def digest (chain : Chain T) : UInt64 :=
  chain.values.foldl (fun sum value => sum * 31 + value.toUInt64) 0

variable [Parent π]

/-- Puts a node in front of `built` for each value, the last value being the first in `pending`.
`total` is the number of values of the whole chain. A refusal that is reported, like a fault,
discards what was built so far. -/
def buildOnto (demand : Demand) (owner : Handle T) (total : Nat) :
    List Int64 → Tail T → Store T π → Except Failure (Tail T) × Store T π
  | [], built, store => (.ok built, store)
  | value :: pending, built, store =>
      match Node.allocate demand owner value store with
      | (.ok node, store) => buildOnto demand owner total pending (node :: built) store
      | (.error .refused, store) =>
          match Tail.discard built (store.emit (.buildAbandoned built.length total)) with
          | (none, store) => (.error .refused, store)
          | (some fault, store) => (.error (.fault fault), store)
      | (.error (.fault fault), store) => (.error (.fault fault), (Tail.discard built store).2)
      | (.error (.aborted layout), store) => (.error (.aborted layout), store)

/-- Builds a chain that holds the given values in order, allocating from back to front. -/
def build (demand : Demand) (owner : Handle T) (values : List Int64) (store : Store T π) :
    Except Failure (Chain T) × Store T π :=
  match buildOnto demand owner values.length values.reverse [] store with
  | (.ok nodes, store) => (.ok ⟨nodes, owner⟩, store)
  | (.error failure, store) => (.error failure, store)

/-- Puts a new node in front. A chain that gets no node stays as it is. -/
def pushFront (demand : Demand) (value : Int64) (chain : Chain T) (store : Store T π) :
    Except Failure Unit × Chain T × Store T π :=
  match Node.allocate demand chain.owner value store with
  | (.ok node, store) => (.ok (), { chain with nodes := node :: chain.nodes }, store)
  | (.error failure, store) => (.error failure, chain, store)

/-- Frees the front node and answers with its value, or with `none` if there is no node. After a
fault the chain is empty. -/
def popFront (chain : Chain T) (store : Store T π) :
    Except Fault (Option Int64) × Chain T × Store T π :=
  match chain.nodes with
  | [] => (.ok none, chain, store)
  | node :: rest =>
      match Tail.releaseHead node rest store with
      | (.ok rest, store) => (.ok (some node.value), { chain with nodes := rest }, store)
      | (.error fault, store) => (.error fault, { chain with nodes := [] }, store)

theorem buildOnto_of_refused {demand : Demand} {owner : Handle T} {value : Int64}
    {store after : Store T π} (total : Nat) (pending : List Int64) (built : Tail T)
    (refused : Node.allocate demand owner value store = (.error .refused, after)) :
    buildOnto demand owner total (value :: pending) built store =
      ((Tail.discard built (after.emit (.buildAbandoned built.length total))).1.elim
          (.error .refused) fun fault => .error (.fault fault),
        (Tail.discard built (after.emit (.buildAbandoned built.length total))).2) := by
  simp only [buildOnto, refused]
  split <;> next discarded => rw [discarded]; rfl

theorem values_of_buildOnto {demand : Demand} {owner : Handle T} {total : Nat}
    {pending : List Int64} {built nodes : Tail T} {store after : Store T π}
    (finished : buildOnto demand owner total pending built store = (.ok nodes, after)) :
    Tail.values nodes = pending.reverse ++ Tail.values built ∧
      ∀ node ∈ nodes, node ∈ built ∨ node.owner = owner := by
  induction pending generalizing built store with
  | nil =>
    simp only [buildOnto, Prod.mk.injEq, Except.ok.injEq] at finished
    obtain ⟨rfl, _⟩ := finished
    exact ⟨rfl, fun node member => Or.inl member⟩
  | cons value pending ih =>
    simp only [buildOnto] at finished
    split at finished
    · next node store granted =>
      obtain ⟨held, owned⟩ := Node.of_allocate granted
      obtain ⟨values, owners⟩ := ih finished
      refine ⟨?_, fun other member => ?_⟩
      · rw [values, List.reverse_cons, List.append_assoc, ← held]
        rfl
      · rcases owners other member with inside | fresh
        · rcases List.mem_cons.1 inside with rfl | older
          · exact Or.inr owned
          · exact Or.inl older
        · exact Or.inr fresh
    · split at finished <;> simp only [Prod.mk.injEq, reduceCtorEq, false_and] at finished
    · simp only [Prod.mk.injEq, reduceCtorEq, false_and] at finished
    · simp only [Prod.mk.injEq, reduceCtorEq, false_and] at finished

theorem values_of_build {demand : Demand} {owner : Handle T} {values : List Int64}
    {chain : Chain T} {store after : Store T π}
    (finished : build demand owner values store = (.ok chain, after)) :
    chain.values = values ∧ chain.owner = owner ∧ ∀ node ∈ chain.nodes, node.owner = owner := by
  simp only [build] at finished
  split at finished
  · next nodes store built =>
    simp only [Prod.mk.injEq, Except.ok.injEq] at finished
    obtain ⟨rfl, _⟩ := finished
    obtain ⟨held, owners⟩ := values_of_buildOnto built
    refine ⟨?_, rfl, fun node member => (owners node member).resolve_left List.not_mem_nil⟩
    rw [Chain.values, held, List.reverse_reverse]
    exact List.append_nil values
  · simp only [Prod.mk.injEq, reduceCtorEq, false_and] at finished

end Chain

end ChainLedger
