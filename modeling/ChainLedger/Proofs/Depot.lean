import ChainLedger.Editor
import ChainLedger.Proofs.Freshness
import ChainLedger.Proofs.Segment
import Mathlib.Tactic.Abel

set_option autoImplicit false

namespace ChainLedger

/-- A result with a property, or, where care was not taken, a record about to be overwritten. -/
inductive Outcome (careless : Prop) {α : Type} (good : α → Prop) : Except Hazard α → Prop where
  | ok {result : α} (holds : good result) : Outcome careless good (.ok result)
  | overwrite {addr : Nat} (allowed : careless) : Outcome careless good (.error (.overwrite addr))

theorem Outcome.bind {careless : Prop} {α β : Type} {good : α → Prop} {better : β → Prop}
    {first : Except Hazard α} {next : α → Except Hazard β} (outcome : Outcome careless good first)
    (onward : ∀ result, good result → Outcome careless better (next result)) :
    Outcome careless better (first >>= next) := by
  cases outcome with
  | ok holds => exact onward _ holds
  | overwrite allowed => exact .overwrite allowed

theorem Outcome.imp {careless : Prop} {α : Type} {good fine : α → Prop} {result : Except Hazard α}
    (outcome : Outcome careless good result) (enough : ∀ value, good value → fine value) :
    Outcome careless fine result := by
  cases outcome with
  | ok holds => exact .ok (enough _ holds)
  | overwrite allowed => exact .overwrite allowed

theorem Outcome.result {careless : Prop} {α : Type} {good : α → Prop} {value : α}
    (outcome : Outcome careless good (.ok value)) : good value := by
  cases outcome with
  | ok holds => exact holds

/-- Without a record overwritten there is a result. -/
theorem Outcome.exists_of_intact {careless : Prop} {α : Type} {good : α → Prop}
    {result : Except Hazard α} (outcome : Outcome careless good result)
    (intact : ∀ addr, result ≠ .error (.overwrite addr)) :
    ∃ value, result = .ok value ∧ good value := by
  cases outcome with
  | ok holds => exact ⟨_, rfl, holds⟩
  | overwrite allowed => exact absurd rfl (intact _)

theorem Outcome.exists_ok {α : Type} {good : α → Prop} {result : Except Hazard α}
    (outcome : Outcome False good result) : ∃ value, result = .ok value ∧ good value := by
  cases outcome with
  | ok holds => exact ⟨_, rfl, holds⟩
  | overwrite allowed => exact allowed.elim

theorem Outcome.careful {careless : Prop} {α : Type} {good : α → Prop} {result : Except Hazard α}
    (outcome : Outcome careless good result) (ended : ∃ value, result = .ok value) :
    Outcome False good result := by
  obtain ⟨value, rfl⟩ := ended
  exact .ok outcome.result

variable {T : Layering} {π : Type} [Parent π]

/-- Care is taken if all addresses are fresh. -/
def Careful (careless : Prop) (store : Store T π) (held : Multiset (Node T)) : Prop :=
  careless ∨ Fresh store held

theorem Careful.move {careless : Prop} {store after : Store T π} {held left : Multiset (Node T)}
    {fault : Option Fault} (careful : Careful careless store held)
    (move : Move False store held fault after left) : Careful careless after left :=
  careful.imp_right fun fresh => fresh.move move

/-- The nodes in whose records a list of records consists. -/
def nodesOf (records : Multiset (Nat × Record T)) : Multiset (Node T) :=
  records.map fun entry => entry.2.node entry.1

theorem nodesOf_records_add (tail : Tail T) (rest : Multiset (Nat × Record T)) :
    nodesOf (tail.records + rest) = ↑tail + nodesOf rest := by
  rw [nodesOf, Multiset.map_add, Tail.records, Tail.map_node_segment]
  rfl

namespace Depot

variable {careless : Prop} {store after : Store T π} {memory : Memory T}
  {rest : Multiset (Nat × Record T)}

theorem allocate_outcome {demand : Demand} {owner : Handle T} {value : Int64} {node : Node T}
    (holds : memory.Holds rest) (careful : Careful careless store (nodesOf rest))
    (granted : Node.allocate demand owner value store = (.ok node, after)) :
    Outcome careless
      (fun (answer, depot) => answer = .ok node.addr ∧ depot.store = after ∧
        depot.memory.Holds (Tail.records [node] + rest))
      ((⟨store, memory⟩ : Depot T π).allocate demand owner value) := by
  obtain ⟨rfl, rfl⟩ := Node.of_allocate granted
  simp only [allocate, granted]
  split
  · next record found =>
    rcases careful with allowed | fresh
    · exact .overwrite allowed
    · have held : record.node node.addr ∈ nodesOf rest :=
        Multiset.mem_map.2 ⟨_, (holds.found _ _).1 found, rfl⟩
      exact absurd rfl (fresh.apart granted (record.node node.addr) held)
  · next free => exact .ok ⟨rfl, rfl, holds.write free⟩

theorem allocate_error {demand : Demand} {owner : Handle T} {value : Int64} {failure : Failure}
    (failed : Node.allocate demand owner value store = (.error failure, after)) :
    (⟨store, memory⟩ : Depot T π).allocate demand owner value =
      .ok (.error failure, ⟨after, memory⟩) := by
  simp only [allocate, failed]

theorem discardAfter_eq {tail : Tail T} (holds : memory.Holds (tail.records + rest))
    (store : Store T π) (first : Option Fault) :
    ∃ left, (⟨store, memory⟩ : Depot T π).discardAfter first tail.link =
        .ok ((tail.discardAfter first store).1, ⟨(tail.discardAfter first store).2, left⟩) ∧
      left.Holds rest := by
  induction tail generalizing memory store first with
  | nil =>
    rw [Tail.records_nil, zero_add] at holds
    refine ⟨memory, ?_, holds⟩
    rw [Tail.link_nil, discardAfter]
    rfl
  | cons node others ih =>
    rw [Tail.records_cons, Multiset.cons_add] at holds
    obtain ⟨left, discarded, held⟩ := ih holds.erase (node.free store).2
      (first.or (node.free store).1)
    refine ⟨left, ?_, held⟩
    rw [Tail.link_cons, discardAfter]
    split
    · next absent =>
      rw [holds.get?] at absent
      cases absent
    · next record found =>
      rw [holds.get?, Option.some.injEq] at found
      subst found
      exact discarded

/-- Discarding behind the link of a list discards the list, and its records are gone. -/
theorem discard_eq {tail : Tail T} (holds : memory.Holds (tail.records + rest))
    (store : Store T π) :
    ∃ left, (⟨store, memory⟩ : Depot T π).discard tail.link =
        .ok ((tail.discard store).1, ⟨(tail.discard store).2, left⟩) ∧ left.Holds rest :=
  discardAfter_eq holds store none

theorem free_eq {node : Node T} {next : Option Nat} {fault : Option Fault}
    (holds : memory.Holds ((node.addr, ⟨node.value, next, node.owner⟩) ::ₘ rest))
    (freed : node.free store = (fault, after)) :
    (⟨store, memory⟩ : Depot T π).free node.addr =
      .ok (fault, ⟨node.value, next, node.owner⟩, ⟨after, memory.erase node.addr⟩) := by
  have same : (⟨node.value, next, node.owner⟩ : Record T).node node.addr = node := rfl
  simp only [free, holds.read, ok_bind, same, freed, pure_eq_ok]

theorem releaseHead_ok {node : Node T} {others left : Tail T}
    (holds : memory.Holds (Tail.records (node :: others) + rest))
    (released : Tail.releaseHead node others store = (.ok left, after)) :
    ∃ kept, (⟨store, memory⟩ : Depot T π).releaseHead node.addr =
        .ok (.ok left.link, ⟨after, kept⟩) ∧ kept.Holds (left.records + rest) := by
  rw [Tail.records_cons, Multiset.cons_add] at holds
  simp only [Tail.releaseHead] at released
  split at released
  · next freed =>
    simp only [Prod.mk.injEq, Except.ok.injEq] at released
    obtain ⟨rfl, rfl⟩ := released
    refine ⟨memory.erase node.addr, ?_, holds.erase⟩
    simp only [releaseHead, free_eq holds freed, ok_bind, pure_eq_ok]
  · simp only [Prod.mk.injEq, reduceCtorEq, false_and] at released

theorem releaseHead_error {node : Node T} {others : Tail T} {fault : Fault}
    (holds : memory.Holds (Tail.records (node :: others) + rest))
    (failed : Tail.releaseHead node others store = (.error fault, after)) :
    ∃ kept, (⟨store, memory⟩ : Depot T π).releaseHead node.addr =
        .ok (.error fault, ⟨after, kept⟩) ∧ kept.Holds rest := by
  rw [Tail.records_cons, Multiset.cons_add] at holds
  simp only [Tail.releaseHead] at failed
  split at failed
  · simp only [Prod.mk.injEq, reduceCtorEq, false_and] at failed
  · next between freed =>
    simp only [Prod.mk.injEq, Except.error.injEq] at failed
    obtain ⟨rfl, rfl⟩ := failed
    obtain ⟨kept, discarded, held⟩ := discard_eq holds.erase between
    refine ⟨kept, ?_, held⟩
    simp only [releaseHead, free_eq holds freed, ok_bind, discarded, pure_eq_ok]

/-- The new record is linked in front of the list. -/
theorem pushOnto_outcome {demand : Demand} {owner : Handle T} {value : Int64} {node : Node T}
    {tail : Tail T} (holds : memory.Holds (tail.records + rest))
    (careful : Careful careless store (↑tail + nodesOf rest))
    (granted : Node.allocate demand owner value store = (.ok node, after)) :
    Outcome careless
      (fun (answer, depot) => answer = .ok (Tail.link (node :: tail)) ∧ depot.store = after ∧
        depot.memory.Holds (Tail.records (node :: tail) + rest))
      ((⟨store, memory⟩ : Depot T π).pushOnto demand owner value tail.link) := by
  rw [← nodesOf_records_add] at careful
  apply (allocate_outcome holds careful granted).bind
  rintro ⟨answer, depot⟩ allocated
  obtain ⟨rfl, rfl, held⟩ := allocated
  rw [Tail.records_cons, Tail.records_nil, Multiset.cons_add, zero_add] at held
  obtain ⟨linked, relinked, whole⟩ := held.relink tail.link
  simp only [relinked, ok_bind, pure_eq_ok]
  refine .ok ⟨rfl, rfl, whole.cast ?_⟩
  rw [Tail.records_cons, Multiset.cons_add]

theorem pushOnto_of_free {demand : Demand} {owner : Handle T} {value : Int64} {node : Node T}
    {tail : Tail T} (holds : memory.Holds (tail.records + rest))
    (free : memory.get? node.addr = none)
    (granted : Node.allocate demand owner value store = (.ok node, after)) :
    ∃ left, (⟨store, memory⟩ : Depot T π).pushOnto demand owner value tail.link =
        .ok (.ok (Tail.link (node :: tail)), ⟨after, left⟩) ∧
      left.Holds (Tail.records (node :: tail) + rest) := by
  obtain ⟨rfl, rfl⟩ := Node.of_allocate granted
  have held : (memory.write node.addr ⟨node.value, none, node.owner⟩).Holds _ := holds.write free
  obtain ⟨left, relinked, whole⟩ := held.relink tail.link
  refine ⟨left, ?_, whole.cast ?_⟩
  · simp only [pushOnto, allocate, granted, free, ok_bind, relinked, pure_eq_ok, Tail.link_cons]
  · rw [Tail.records_cons, Multiset.cons_add]

theorem pushOnto_error {demand : Demand} {owner : Handle T} {value : Int64} {failure : Failure}
    {head : Option Nat}
    (failed : Node.allocate demand owner value store = (.error failure, after)) :
    (⟨store, memory⟩ : Depot T π).pushOnto demand owner value head =
      .ok (.error failure, ⟨after, memory⟩) := by
  simp only [pushOnto, allocate_error failed, ok_bind, pure_eq_ok]

/-- How a build ends: the list that is expected can be reached, or, unless the run ends with it,
the build has left no record behind. -/
def Built (rest : Multiset (Nat × Record T)) (expected : Except Failure (Tail T) × Store T π)
    (result : Except Failure (Option Nat) × Depot T π) : Prop :=
  result.1 = expected.1.map Tail.link ∧ result.2.store = expected.2 ∧
    match expected.1 with
    | .ok nodes => result.2.memory.Holds (nodes.records + rest)
    | .error failure => (∀ layout, failure ≠ .aborted layout) → result.2.memory.Holds rest

/-- A build that comes to a node which cannot be allocated gives back what is there so far. -/
theorem buildOnto_of_error {demand : Demand} {owner : Handle T} {total : Nat} {value : Int64}
    {pending : List Int64} {built : Tail T} {failure : Failure} {between : Store T π}
    (holds : memory.Holds (built.records + rest))
    (asked : Node.allocate demand owner value store = (.error failure, between)) :
    Outcome careless
      (Built rest (Chain.buildOnto demand owner total (value :: pending) built store))
      ((⟨store, memory⟩ : Depot T π).buildOnto demand owner total (value :: pending) built.length
        built.link) := by
  rw [buildOnto, pushOnto_error asked]
  cases failure with
  | refused =>
    obtain ⟨left, discarded, held⟩ := discard_eq holds
      (between.emit (.buildAbandoned built.length total))
    simp only [Chain.buildOnto, asked, ok_bind, discarded]
    rcases built.discard (between.emit (.buildAbandoned built.length total)) with
      ⟨_ | fault, after⟩
    · exact .ok ⟨rfl, rfl, fun _ => held⟩
    · exact .ok ⟨rfl, rfl, fun _ => held⟩
  | fault fault =>
    obtain ⟨left, discarded, held⟩ := discard_eq holds between
    simp only [Chain.buildOnto, asked, ok_bind, discarded]
    exact .ok ⟨rfl, rfl, fun _ => held⟩
  | aborted layout =>
    simp only [Chain.buildOnto, asked, ok_bind]
    exact .ok ⟨rfl, rfl, fun survived => absurd rfl (survived layout)⟩

theorem buildOnto_outcome {demand : Demand} {owner : Handle T} {total : Nat}
    {pending : List Int64} {built : Tail T} (holds : memory.Holds (built.records + rest))
    (careful : Careful careless store (↑built + nodesOf rest)) :
    Outcome careless (Built rest (Chain.buildOnto demand owner total pending built store))
      ((⟨store, memory⟩ : Depot T π).buildOnto demand owner total pending built.length
        built.link) := by
  induction pending generalizing built store memory with
  | nil => exact .ok ⟨rfl, rfl, holds⟩
  | cons value pending ih =>
    rcases asked : Node.allocate demand owner value store with ⟨failure | node, between⟩
    · exact buildOnto_of_error holds asked
    · rw [buildOnto]
      apply (pushOnto_outcome holds careful asked).bind
      rintro ⟨answer, depot⟩ pushed
      obtain ⟨rfl, rfl, held⟩ := pushed
      simp only [Chain.buildOnto, asked]
      apply ih held
      rw [← Multiset.cons_coe, Multiset.cons_add]
      exact careful.move (.allocate asked)

end Depot

namespace Editor

variable {store after : Store T π} {memory : Memory T} {rest : Multiset (Nat × Record T)}

/-- The editor behind nodes already passed, nearest first, in a list that starts with them and goes
on with `link`. -/
def behind (passed : Tail T) (link : Option Nat) : Editor where
  first := Tail.entry passed.reverse link
  slot :=
    match passed with
    | [] => .head
    | node :: _ => .behind node.addr

theorem entry_reverse_cons (node : Node T) (passed : Tail T) (link : Option Nat) :
    Tail.entry (node :: passed).reverse link = Tail.entry passed.reverse (some node.addr) := by
  rw [List.reverse_cons, Tail.entry_append]
  rfl

theorem segment_reverse_cons (node : Node T) (passed : Tail T) (link : Option Nat) :
    Tail.segment (node :: passed).reverse link =
      (node.addr, ⟨node.value, link, node.owner⟩) ::ₘ
        Tail.segment passed.reverse (some node.addr) := by
  rw [List.reverse_cons, Tail.segment_append, Tail.segment, Tail.segment, Tail.entry, Tail.entry,
    Multiset.add_cons, add_zero]

theorem link_behind {passed : Tail T} {link : Option Nat}
    (holds : memory.Holds (Tail.segment passed.reverse link + rest)) :
    (behind passed link).link memory = .ok link := by
  cases passed with
  | nil => rfl
  | cons node passed =>
    rw [segment_reverse_cons, Multiset.cons_add] at holds
    simp only [Editor.link, behind, holds.read, ok_bind, pure_eq_ok]

theorem setLink_behind {passed : Tail T} {link : Option Nat}
    (holds : memory.Holds (Tail.segment passed.reverse link + rest)) (other : Option Nat) :
    ∃ left, (behind passed link).setLink other memory = .ok (behind passed other, left) ∧
      left.Holds (Tail.segment passed.reverse other + rest) := by
  cases passed with
  | nil => exact ⟨memory, rfl, holds⟩
  | cons node passed =>
    rw [segment_reverse_cons, Multiset.cons_add] at holds
    obtain ⟨left, relinked, held⟩ := holds.relink other
    refine ⟨left, ?_, held.cast ?_⟩
    · simp only [setLink, behind, relinked, ok_bind, pure_eq_ok, entry_reverse_cons]
    · rw [segment_reverse_cons, Multiset.cons_add]

end Editor

/-- The editor at the node of a zipper. -/
def Zipper.editor (zipper : Zipper T) : Editor :=
  .behind zipper.passed (some zipper.focus.addr)

namespace Zipper

variable {store after : Store T π} {memory : Memory T} {rest : Multiset (Nat × Record T)}
  {zipper : Zipper T}

theorem records_nodes (zipper : Zipper T) :
    zipper.nodes.records =
      Tail.segment zipper.passed.reverse (some zipper.focus.addr) +
        (zipper.focus.addr, ⟨zipper.focus.value, zipper.rest.link, zipper.focus.owner⟩) ::ₘ
          zipper.rest.records :=
  Tail.records_split _ _ _

theorem first_editor (zipper : Zipper T) : zipper.editor.first = zipper.nodes.link :=
  (Tail.entry_append zipper.passed.reverse (zipper.focus :: zipper.rest) none).symm

theorem editor_ofTail? (tail : Tail T) :
    Editor.ofLink? tail.link = (ofTail? tail).map editor := by
  cases tail <;> rfl

theorem addr_editor (holds : memory.Holds (zipper.nodes.records + rest)) :
    zipper.editor.addr memory = .ok zipper.focus.addr := by
  rw [records_nodes, add_assoc] at holds
  simp only [Editor.addr, editor, Editor.link_behind holds, ok_bind, pure_eq_ok]

theorem record_focus (holds : memory.Holds (zipper.nodes.records + rest)) :
    memory.Holds ((zipper.focus.addr,
      ⟨zipper.focus.value, zipper.rest.link, zipper.focus.owner⟩) ::ₘ
        (zipper.rest.records +
          (Tail.segment zipper.passed.reverse (some zipper.focus.addr) + rest))) := by
  apply holds.cast
  rw [records_nodes, Multiset.add_cons, Multiset.cons_add, add_comm (Tail.segment _ _), add_assoc]

theorem advance?_editor (holds : memory.Holds (zipper.nodes.records + rest)) :
    zipper.editor.advance? memory = .ok (zipper.advance?.map editor) := by
  have focus := record_focus holds
  obtain ⟨passed, node, behind⟩ := zipper
  simp only [Editor.advance?, addr_editor holds, focus.read, ok_bind]
  cases behind with
  | nil => rfl
  | cons next behind =>
    simp only [Tail.link_cons, pure_eq_ok, advance?, Option.map_some, editor, Editor.behind,
      Editor.entry_reverse_cons]

theorem relink_focus {successors : Tail T}
    (holds : memory.Holds (zipper.nodes.records + (Tail.records successors + rest))) :
    ∃ left, memory.relink zipper.focus.addr successors.link =
        .ok (Tail.link (zipper.link successors).1, left) ∧
      left.Holds ((zipper.link successors).2.nodes.records +
        (Tail.records (zipper.link successors).1 + rest)) := by
  obtain ⟨left, relinked, held⟩ := (record_focus holds).relink successors.link
  refine ⟨left, relinked, held.cast ?_⟩
  rw [records_nodes, link, ← Multiset.singleton_add, ← Multiset.singleton_add]
  abel

theorem release_editor (holds : memory.Holds (zipper.nodes.records + rest))
    {result : Except Fault Int64} {left : Tail T}
    (released : zipper.release store = (result, left, after)) :
    ∃ kept, zipper.editor.release (⟨store, memory⟩ : Depot T π) =
        .ok (result, left.link, ⟨after, kept⟩) ∧ kept.Holds (left.records + rest) := by
  have place := addr_editor holds
  rw [records_nodes, add_assoc] at holds
  obtain ⟨emptied, unlinked, held⟩ := Editor.setLink_behind holds none
  have focus : emptied.Holds ((zipper.focus.addr,
      ⟨zipper.focus.value, zipper.rest.link, zipper.focus.owner⟩) ::ₘ
        (zipper.rest.records + (Tail.segment zipper.passed.reverse none + rest))) := by
    apply held.cast
    rw [Multiset.cons_add, Multiset.add_cons, add_left_comm]
  simp only [release, Tail.releaseHead] at released
  rcases freed : zipper.focus.free store with ⟨_ | fault, between⟩
  · simp only [freed, Prod.mk.injEq] at released
    obtain ⟨rfl, rfl, rfl⟩ := released
    obtain ⟨kept, linked, whole⟩ := Editor.setLink_behind
      (focus.erase.cast (add_left_comm _ _ _)) zipper.rest.link
    refine ⟨kept, ?_, whole.cast ?_⟩
    · simp only [Editor.release, place, ok_bind]
      simp only [editor, unlinked, ok_bind, Depot.free_eq focus freed, linked, pure_eq_ok,
        Zipper.value]
      rw [Tail.link_append]
      rfl
    · rw [Tail.records_append, add_assoc]
  · simp only [freed, Prod.mk.injEq] at released
    obtain ⟨rfl, rfl, rfl⟩ := released
    obtain ⟨kept, discarded, left⟩ := Depot.discard_eq focus.erase between
    refine ⟨kept, ?_, left⟩
    simp only [Editor.release, place, ok_bind]
    simp only [editor, unlinked, ok_bind, Depot.free_eq focus freed, discarded, pure_eq_ok]
    rfl

end Zipper

end ChainLedger
