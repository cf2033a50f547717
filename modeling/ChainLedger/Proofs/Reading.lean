import ChainLedger.Proofs.Removal
import Mathlib.Algebra.Order.BigOperators.Group.List
import Mathlib.Algebra.Order.Group.Nat

set_option autoImplicit false

namespace ChainLedger

inductive Read where
  | next
  | nth (skipped : Nat)

namespace Read

def step : Read → StreamStep
  | next => .next
  | nth skipped => .skip skipped

def skipped : Read → Nat
  | next => 0
  | nth skipped => skipped

/-- By how much reads move the position. -/
def distance (reads : List Read) : Nat :=
  (reads.map fun read => read.skipped + 1).sum

theorem distance_cons (read : Read) (reads : List Read) :
    distance (read :: reads) = read.skipped + 1 + distance reads :=
  List.sum_cons

theorem distance_take_le (reads : List Read) {i j : Nat} (order : i ≤ j) :
    distance (reads.take i) ≤ distance (reads.take j) := by
  refine List.Sublist.sum_le_sum ?_ fun _ _ => Nat.zero_le _
  exact (List.take_sublist_take_left order).map _

/-- A read moves the position past the value that it finds. -/
theorem distance_take_succ {reads : List Read} {i : Nat} (inside : i < reads.length) :
    distance (reads.take (i + 1)) = distance (reads.take i) + reads[i].skipped + 1 := by
  rw [distance, distance, List.take_add_one, List.getElem?_eq_getElem inside, List.map_append,
    List.sum_append]
  exact (Nat.add_assoc _ _ _).symm

end Read

/-- A step that uses a value stream up. -/
inductive Ending where
  | rest
  | count
  | last

namespace Ending

def step : Ending → StreamStep
  | rest => .rest
  | count => .count
  | last => .last

/-- What it says of the values that remain. -/
def answer {T : Layering} (remaining : List Int64) : Ending → Answer T
  | rest => .values remaining
  | count => .count remaining.length
  | last => .ofValue? remaining.getLast?

end Ending

variable {T : Layering}

/-- Answers to reads that begin in front of some values, and to an ending if there is one. -/
structure Reads (values : List Int64) (reads : List Read) (ending : Option Ending)
    (answers : List (Answer T)) : Prop where
  length : answers.length = reads.length + ending.toList.length
  /-- A read finds the value at its position, or nothing past the end. -/
  found : ∀ i (inside : i < reads.length), answers[i]? =
    some (.ofValue? values[Read.distance (reads.take i) + reads[i].skipped]?)
  remaining : ∀ final, ending = some final →
    answers[reads.length]? = some (final.answer (values.drop (Read.distance reads)))

namespace Reads

variable {values : List Int64} {read : Read} {reads : List Read} {ending : Option Ending}
  {answers : List (Answer T)}

theorem cons (behind : Reads (values.drop (read.skipped + 1)) reads ending answers) :
    Reads values (read :: reads) ending (.ofValue? values[read.skipped]? :: answers) where
  length := by
    rw [List.length_cons, List.length_cons, behind.length]
    omega
  found i inside := by
    cases i with
    | zero => simp only [List.getElem?_cons_zero, List.take_zero, List.getElem_cons_zero,
        Read.distance, List.map_nil, List.sum_nil, Nat.zero_add]
    | succ i =>
      have later := behind.found i (Nat.lt_of_succ_lt_succ inside)
      simp only [List.getElem?_cons_succ, later, List.getElem?_drop, List.take_succ_cons,
        Read.distance_cons, List.getElem_cons_succ, Nat.add_assoc]
  remaining final ends := by
    rw [List.length_cons, List.getElem?_cons_succ, behind.remaining final ends, List.drop_drop,
      Read.distance_cons]

theorem ended (reading : Reads values reads ending answers) {i j : Nat} (order : i ≤ j)
    (inside : j < reads.length) (nothing : answers[i]? = some .nothing) :
    answers[j]? = some .nothing := by
  have ofValue?_eq : ∀ value, (.nothing : Answer T) = .ofValue? value ↔ value = none := by
    intro value
    cases value <;> simp only [Answer.ofValue?, reduceCtorEq]
  have first := Nat.lt_of_le_of_lt order inside
  rw [reading.found i first, Option.some.injEq, eq_comm, ofValue?_eq,
    List.getElem?_eq_none_iff] at nothing
  rw [reading.found j inside, Option.some.injEq, eq_comm, ofValue?_eq, List.getElem?_eq_none_iff]
  rcases Nat.eq_or_lt_of_le order with rfl | later
  · exact nothing
  · have passed := Read.distance_take_le reads later
    rw [Nat.succ_eq_add_one, Read.distance_take_succ first] at passed
    omega

end Reads

/-- A value stream is read along its values. -/
theorem ValueStream.reads_read (values : List Int64) (reads : List Read) (ending : Option Ending) :
    Reads values reads ending ((⟨values⟩ : ValueStream).read (T := T)
      (reads.map Read.step ++ ending.toList.map Ending.step)) := by
  induction reads generalizing values with
  | nil =>
    cases ending with
    | none => exact ⟨rfl, fun _ inside => absurd inside (Nat.not_lt_zero _), nofun⟩
    | some final =>
      refine ⟨by cases final <;> rfl, fun _ inside => absurd inside (Nat.not_lt_zero _), ?_⟩
      rintro _ ⟨⟩
      cases final <;> rfl
  | cons read reads ih =>
    have first : (⟨values⟩ : ValueStream).read (T := T) (read.step ::
        (reads.map Read.step ++ ending.toList.map Ending.step)) =
          .ofValue? values[read.skipped]? :: ValueStream.read ⟨values.drop (read.skipped + 1)⟩
            (reads.map Read.step ++ ending.toList.map Ending.step) := by
      cases read <;> simp only [Read.step, Read.skipped, ValueStream.read, ValueStream.next,
        ValueStream.skip_eq]
    rw [List.map_cons, List.cons_append, first]
    exact (ih _).cons

namespace Cursor

theorem look_advance (saved cursor : Cursor T) (count : Nat) :
    saved.look cursor (List.replicate count .advance) = .ok ((List.range count).map fun i =>
      if i < cursor.rest.length then .truth true else .nothing) := by
  induction count generalizing cursor with
  | zero => rfl
  | succ count ih =>
    obtain ⟨node, rest⟩ := cursor
    cases rest with
    | nil =>
      simp only [List.replicate_succ, look, advance?, ofTail?, ih, List.range_succ_eq_map,
        List.map_cons, List.map_map]
      rfl
    | cons next rest =>
      simp only [List.replicate_succ, look, advance?, ofTail?, ih, List.range_succ_eq_map,
        List.map_cons, List.map_map, List.length_cons, Nat.zero_lt_succ, ↓reduceIte, Except.map,
        Function.comp_def, Nat.succ_lt_succ_iff]

/-- A cursor that has advanced looks from the node at which it then stands. -/
theorem look_advance_append {front behind : Tail T} {node : Node T} (saved cursor : Cursor T)
    (ahead : cursor.nodes = front ++ node :: behind) (steps : List CursorStep) :
    saved.look cursor (List.replicate front.length .advance ++ steps) =
      (saved.look ⟨node, behind⟩ steps).map (List.replicate front.length (.truth true) ++ ·) := by
  induction front generalizing cursor with
  | nil =>
    obtain ⟨first, rest⟩ := cursor
    cases ahead
    exact (congrFun Except.map_id _).symm
  | cons first front ih =>
    obtain ⟨here, rest⟩ := cursor
    obtain ⟨next, others, shape⟩ := List.exists_cons_of_ne_nil
      (List.append_ne_nil_of_right_ne_nil front (List.cons_ne_nil node behind))
    rw [nodes, List.cons_append, shape, List.cons.injEq] at ahead
    obtain ⟨rfl, rfl⟩ := ahead
    have later := ih ⟨next, others⟩ shape.symm
    simp only [List.length_cons, List.replicate_succ, List.cons_append, look, advance?, ofTail?,
      later]
    cases saved.look ⟨node, behind⟩ steps <;> rfl

end Cursor

namespace Represents

variable {π : Type} {machine : Machine T π} {session : Session T π} {name : String}
  {chain : Chain T}

theorem nodes_of_chain (represents : Represents 0 machine session)
    (found : machine.view name = .ok (some (.chain chain))) : session.nodes name = chain.nodes :=
  session.nodes_of_chain (represents.found_register found)

theorem front_of_chain (represents : Represents 0 machine session)
    (found : machine.view name = .ok (some (.chain chain))) :
    session.isFrontOfChain name 0 = true := by
  simp only [Session.isFrontOfChain, represents.found_register found]

theorem follow_chain (represents : Represents 0 machine session)
    (found : machine.view name = .ok (some (.chain chain))) (k : Nat) :
    machine.memory.follow k (machine.first name) = .ok (chain.nodes[k]?.map Node.addr) := by
  rw [represents.follow_eq, represents.nodes_of_chain found, ← List.head?_drop]
  cases chain.nodes.drop k <;> rfl

theorem cursor_advances (represents : Represents 0 machine session)
    (found : machine.view name = .ok (some (.chain chain))) (k : Nat) :
    machine.cursor name 0 (some (List.replicate k .advance)) =
      .ok (if chain.nodes = [] then .answer .nothing else .answers ((List.range k).map fun i =>
        if i + 1 < chain.length then .truth true else .nothing)) := by
  rw [represents.cursor_eq, Session.cursor, represents.nodes_of_chain found, List.drop_zero,
    represents.front_of_chain found]
  cases shape : chain.nodes with
  | nil => rfl
  | cons node rest =>
    simp only [Cursor.ofTail?, Cursor.look_advance, Chain.length, shape, List.length_cons,
      Nat.succ_lt_succ_iff, reduceCtorEq, ↓reduceIte]

/-- What a cursor sees from the node to which it has advanced. -/
theorem cursor_sees (represents : Represents 0 machine session)
    (found : machine.view name = .ok (some (.chain chain))) {k : Nat} {node : Node T}
    (here : chain.nodes[k]? = some node) :
    machine.cursor name 0 (some (List.replicate k .advance ++ [.value, .terminal, .values])) =
      .ok (.answers (List.replicate k (.truth true) ++
        [.value node.value, .truth (k + 1 == chain.length), .values (chain.values.drop k)])) := by
  obtain ⟨shape, length, back⟩ := Tail.eq_of_getElem? here
  obtain ⟨cursor, stands⟩ : ∃ cursor, Cursor.ofTail? chain.nodes = some cursor := by
    cases listed : chain.nodes with
    | nil => rw [listed] at here; cases here
    | cons first rest => exact ⟨_, rfl⟩
  have looked := cursor.look_advance_append cursor
    ((Cursor.nodes_of_ofTail? stands).trans shape) [.value, .terminal, .values]
  rw [length] at looked
  have terminal : (chain.nodes.drop (k + 1)).isEmpty = (k + 1 == chain.length) := by
    rw [Chain.length, Bool.eq_iff_iff, List.isEmpty_iff, List.drop_eq_nil_iff, beq_iff_eq]
    have inside := (List.getElem?_eq_some_iff.1 here).1
    omega
  rw [represents.cursor_eq, Session.cursor, represents.nodes_of_chain found, List.drop_zero, stands]
  simp only [looked, Cursor.look, Except.map, Cursor.value, Cursor.isTerminal, Cursor.nodes,
    terminal, ← back, Chain.values, Tail.values, List.map_drop]

/-- What a value stream reads from the front of a chain, or from one of its nodes. -/
theorem stream_reads (represents : Represents 0 machine session)
    (found : machine.view name = .ok (some (.chain chain))) {k : Nat}
    (inside : k < chain.length ∨ k = 0) (steps : List StreamStep) :
    machine.stream name k (some steps) =
      .ok (.answers ((⟨chain.values.drop k⟩ : ValueStream).read steps)) := by
  have there : ((chain.nodes.drop k).isEmpty && !session.isFrontOfChain name k) = false := by
    rcases inside with inside | rfl
    · have some : chain.nodes.drop k ≠ [] := by
        rw [ne_eq, List.drop_eq_nil_iff]
        exact Nat.not_le.2 inside
      rw [List.isEmpty_eq_false_iff.2 some, Bool.false_and]
    · rw [represents.front_of_chain found, Bool.not_true, Bool.and_false]
  rw [represents.stream_eq, Session.stream, represents.nodes_of_chain found, there]
  simp only [Bool.false_eq_true, ↓reduceIte, ValueStream.ofTail, Chain.values, Tail.values,
    List.map_drop]

variable [Parent π]

/-- What is read from a chain. A cursor that has advanced `k` times from the head stands at the
`k`-th node, if there is one; it knows whether this is the last one, and the values from there on.
A value stream from the front or from any node is read along the values, past the end as well. The
machine is the same afterwards. -/
theorem cursor_and_stream_answers (represents : Represents 0 machine session)
    (found : machine.view name = .ok (some (.chain chain))) :
    (∀ k, machine.memory.follow k (machine.first name) = .ok (chain.nodes[k]?.map Node.addr)) ∧
    (∀ k, machine.perform (.cursor name 0 (some (List.replicate k .advance))) =
      .ok (if chain.nodes = [] then .answer .nothing else .answers ((List.range k).map fun i =>
        if i + 1 < chain.length then .truth true else .nothing), machine)) ∧
    (∀ k node, chain.nodes[k]? = some node →
      machine.perform (.cursor name 0 (some (List.replicate k .advance ++
        [.value, .terminal, .values]))) = .ok (.answers (List.replicate k (.truth true) ++
          [.value node.value, .truth (k + 1 == chain.length), .values (chain.values.drop k)]),
        machine)) ∧
    ∀ k reads ending, k < chain.length ∨ k = 0 → ∃ answers,
      machine.perform (.stream name k
        (some (reads.map Read.step ++ ending.toList.map Ending.step))) =
          .ok (.answers answers, machine) ∧
      Reads (chain.values.drop k) reads ending answers ∧
      ∀ i j, i ≤ j → j < reads.length → answers[i]? = some .nothing →
        answers[j]? = some .nothing := by
  refine ⟨represents.follow_chain found, fun k => ?_, fun k node here => ?_,
    fun k reads ending inside => ?_⟩
  · rw [Machine.perform, represents.cursor_advances found]
    rfl
  · rw [Machine.perform, represents.cursor_sees found here]
    rfl
  · have reading := ValueStream.reads_read (T := T) (chain.values.drop k) reads ending
    refine ⟨_, ?_, reading, fun i j order within => reading.ended order within⟩
    rw [Machine.perform, represents.stream_reads found inside]
    rfl

/-- A chain of four values is read from its second node on, past its end. -/
theorem cursor_and_stream_answers_fork :
    let before : List (Op .fork Arena) := [.chain "list" .attempt (some (1 : Fin 3)) [5, 6, 7, 8]]
    let start : Machine .fork Arena := Machine.opened (.opened (fun _ => none) (.ofCapacity 4096))
    ∃ given machine answers, Machine.performAll before start = .ok (given, machine) ∧
      machine.memory.follow 2 (machine.first "list") = .ok (some 4120) ∧
      machine.memory.follow 4 (machine.first "list") = .ok none ∧
      machine.perform (.cursor "list" 0 (some [.advance, .advance, .advance, .advance])) =
        .ok (.answers [.truth true, .truth true, .truth true, .nothing], machine) ∧
      machine.perform (.cursor "list" 0 (some [.advance, .advance, .value, .terminal, .values])) =
        .ok (.answers [.truth true, .truth true, .value 7, .truth false, .values [7, 8]],
          machine) ∧
      machine.perform (.stream "list" 1 (some [.skip 1, .skip 3, .next, .count])) =
        .ok (.answers answers, machine) ∧
      Reads [6, 7, 8] [.nth 1, .nth 3, .next] (some .count) answers := by
  intro before start
  have lasting : start.answersAll (fun reply => reply.isAbort = false) before = true := by
    decide +kernel
  obtain ⟨given, machine, reached, survived⟩ := Machine.exists_of_answersAll lasting
  have checked : (match Machine.performAll before start with
      | .ok (_, machine) => decide (machine.view "list" = .ok (some (.chain ⟨[
          ⟨4168, 5, some (1 : Fin 3)⟩, ⟨4144, 6, some (1 : Fin 3)⟩, ⟨4120, 7, some (1 : Fin 3)⟩,
          ⟨4096, 8, some (1 : Fin 3)⟩], some (1 : Fin 3)⟩)))
      | .error _ => false) = true := by decide +kernel
  rw [reached] at checked
  have found := of_decide_eq_true checked
  obtain ⟨session, represents⟩ := Machine.exists_represents reached survived
  obtain ⟨places, advances, sees, streams⟩ := represents.cursor_and_stream_answers found
  obtain ⟨answers, performed, reading, -⟩ := streams 1 [.nth 1, .nth 3, .next] (some .count)
    (.inl (by decide))
  exact ⟨given, machine, answers, reached, places 2, places 4, advances 4, sees 2 _ rfl, performed,
    reading⟩

end Represents

end ChainLedger
