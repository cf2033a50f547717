import ChainLedger.Proofs.Trail

set_option autoImplicit false

namespace ChainLedger

namespace Directory

variable {α : Type} {directory : Directory α}

theorem get?_of_mem_ascending {entry : String × α} (member : entry ∈ directory.ascending) :
    directory.get? entry.1 = some entry.2 :=
  directory.get?_of_mem (directory.ascending_perm.mem_iff.1 member)

theorem mem_entries_iff {entry : String × α} :
    entry ∈ directory.entries ↔ directory.get? entry.1 = some entry.2 := by
  refine ⟨directory.get?_of_mem, fun found => ?_⟩
  obtain ⟨name, held⟩ := entry
  simp only [get?] at found
  generalize directory.entries = entries at found ⊢
  induction entries with
  | nil => cases found
  | cons first rest ih =>
    rw [List.lookup_cons] at found
    by_cases same : name = first.1
    · subst same
      rw [beq_self_eq_true] at found
      obtain rfl := Option.some.inj found
      exact .head _
    · rw [beq_false_of_ne same] at found
      exact .tail _ (ih found)

theorem nodup_entries (directory : Directory α) : directory.entries.Nodup :=
  .of_map _ directory.names_nodup

theorem ascending_pairwise (directory : Directory α) :
    directory.ascending.Pairwise fun first second => first.1 ≤ second.1 := by
  refine (List.pairwise_mergeSort (fun first second third => ?_) (fun first second => ?_)
    directory.entries).imp of_decide_eq_true
  · simp only [decide_eq_true_eq]
    exact String.le_trans
  · simp only [Bool.or_eq_true, decide_eq_true_eq]
    exact String.le_total _ _

/-- The same entries under the same names come in the same order. -/
theorem ascending_congr {other : Directory α}
    (same : ∀ name, other.get? name = directory.get? name) :
    other.ascending = directory.ascending := by
  have entries : other.entries.Perm directory.entries :=
    (List.perm_ext_iff_of_nodup other.nodup_entries directory.nodup_entries).2 fun entry => by
      rw [mem_entries_iff, mem_entries_iff, same]
  refine List.Perm.eq_of_pairwise (fun first second member member' below above => ?_)
    other.ascending_pairwise directory.ascending_pairwise
    (other.ascending_perm.trans (entries.trans directory.ascending_perm.symm))
  have name : first.1 = second.1 := String.le_antisymm below above
  have found := get?_of_mem_ascending member
  rw [name, same, get?_of_mem_ascending member'] at found
  exact Prod.ext name (Option.some.inj found).symm

end Directory

variable {T T' : Layering} {π π' : Type}

theorem Session.closings_cons [Parent π] (request : Except Problem (Op T π))
    (requests : List (Except Problem (Op T π))) (session : Session T π) :
    (session.run (request :: requests)).closings =
      if (session.clearEvents.serve request).1.isAbort then none
      else ((session.clearEvents.serve request).2.run requests).closings := by
  simp only [run]
  cases (session.clearEvents.serve request).1.isAbort <;> rfl

namespace Comparison

variable (comparison : Comparison T T' π π')

/-- Two lists that are given up alike, and neither of them with a fault. -/
structure Closings (met : Nat → Nat → Prop) (first : Closing T π) (second : Closing T' π') :
    Prop where
  name : second.name = first.name
  kind : second.kind = first.kind
  values : second.values = first.values
  quiet : first.fault = none
  quiet' : second.fault = none
  stores : ∃ store store', comparison.Stores met store store' ∧ first.events = store.events ∧
    second.events = store'.events

variable {comparison} {met : Nat → Nat → Prop}

theorem Contents.kind_eq {register : Register T} {register' : Register T'}
    (contents : comparison.Contents met register register') : register'.kind = register.kind := by
  cases contents <;> rfl

theorem Directories.ascending {registers : Registers T} {registers' : Registers T'}
    (directories : comparison.Directories (fun _ => True) met registers registers')
    {addr : Nat → Nat} (renames : Renames met addr) :
    List.Forall₂ (fun entry entry' => entry'.1 = entry.1 ∧
      comparison.Contents met entry.2 entry'.2) registers.ascending registers'.ascending := by
  have same : ∀ name, registers'.get? name =
      (registers.map (comparison.relabelling addr).register).get? name := fun name =>
    (directories.get?_eq renames trivial).trans (Directory.get?_map _ _ _).symm
  rw [Directory.ascending_congr same, Directory.ascending_map, List.forall₂_map_right_iff,
    List.forall₂_same]
  intro entry member
  have here := directories entry.1 trivial
  rw [same, Directory.get?_map, Directory.get?_of_mem_ascending member] at here
  obtain contents := Option.rel_some_some.1 here
  exact ⟨rfl, contents⟩

variable [Parent π] [Parent π']

/-- The registers of sound sessions are given up without a fault, and alike. -/
theorem Preserved.close (preserved : comparison.Preserved)
    {entries : List (String × Register T)} {entries' : List (String × Register T')}
    (pairs : List.Forall₂ (fun entry entry' => entry'.1 = entry.1 ∧
      comparison.Contents met entry.2 entry'.2) entries entries')
    {store : Store T π} {store' : Store T' π'} (stores : comparison.Stores met store store')
    (sound : Sound store (entries.map fun entry => (↑entry.2.nodes : Multiset (Node T))).sum)
    (sound' : Sound store' (entries'.map fun entry => (↑entry.2.nodes : Multiset (Node T'))).sum) :
    List.Forall₂ (comparison.Closings met) (Session.close entries store)
      (Session.close entries' store') := by
  induction pairs generalizing store store' with
  | nil => exact .nil
  | @cons entry entry' rest rest' here _ ih =>
    obtain ⟨name, register⟩ := entry
    obtain ⟨name', register'⟩ := entry'
    obtain ⟨rfl, contents⟩ := here
    rw [List.map_cons, List.sum_cons] at sound sound'
    obtain ⟨kept, quiet⟩ := sound.clearEvents.accounts (Tail.accounts_discard _ _ _)
    obtain ⟨kept', quiet'⟩ := sound'.clearEvents.accounts (Tail.accounts_discard _ _ _)
    have after := preserved.discard contents.nodes (preserved.clear stores) quiet quiet'
    exact .cons ⟨rfl, contents.kind_eq, contents.nodes.values, quiet, quiet', _, _, after, rfl, rfl⟩
      (ih after kept kept')

/-- Runs of sessions that go together: their trails match step by step, and what is left at the end
is given up alike. All of it is about one relation of the addresses met on the way. -/
theorem Preserved.runs (preserved : comparison.Preserved) {session : Session T π}
    {session' : Session T' π'} {requests : List (Except Problem (Op T π))}
    {requests' : List (Except Problem (Op T' π'))}
    (serves : List.Forall₂ (comparison.Serves fun _ => True) requests requests')
    (sessions : comparison.Sessions (fun _ => True) met session session')
    (sound : Sound session.store session.owned) (sound' : Sound session'.store session'.owned)
    (supplied : ∀ result ∈ session'.trail requests', ¬ RanOut result.1 result.2.store) :
    ∃ later, met ≤ later ∧ (∃ store store', comparison.Stores later store store') ∧
      List.Forall₂ (comparison.Matching (fun _ => True) later) (session.trail requests)
        (session'.trail requests') ∧
      Option.Rel (List.Forall₂ (comparison.Closings later)) (session.run requests).closings
        (session'.run requests').closings := by
  induction serves generalizing met session session' with
  | nil =>
    obtain ⟨addr, renames⟩ := preserved.renames sessions.stores
    rw [Session.owned, Registers.owned, ← Directory.sum_ascending] at sound sound'
    exact ⟨met, le_refl _, ⟨_, _, sessions.stores⟩, .nil, .some (preserved.close
      (sessions.directories.ascending renames) sessions.stores sound sound')⟩
  | @cons request request' requests requests' here _ ih =>
    rw [Session.trail_cons] at supplied ⊢
    rw [Session.trail_cons, Session.closings_cons, Session.closings_cons]
    obtain ⟨first, rest⟩ := List.forall_mem_cons.1 supplied
    obtain ⟨now, grown, going, replies⟩ := preserved.serve sessions sound sound' here first
    obtain ⟨addr, renames⟩ := preserved.renames going.stores
    rw [replies addr renames, Relabelling.isAbort_reply] at rest
    rw [replies addr renames, Relabelling.isAbort_reply]
    have matching : comparison.Matching (fun _ => True) now _ _ := ⟨now, le_refl _, going, replies⟩
    cases survived : (session.clearEvents.serve request).1.isAbort with
    | true => exact ⟨now, grown, ⟨_, _, going.stores⟩, .cons matching .nil, .none⟩
    | false =>
      rw [survived] at rest
      have survived' := (replies addr renames ▸ Relabelling.isAbort_reply _ _).trans survived
      obtain ⟨later, more, stores, trails, closings⟩ := ih going
        ((sound.cleared.serve here.listed.1).2 survived)
        ((sound'.cleared.serve here.listed.2).2 survived') rest
      exact ⟨later, grown.trans more, stores, .cons (matching.mono more) trails, closings⟩

end Comparison

end ChainLedger
