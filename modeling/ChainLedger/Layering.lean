set_option autoImplicit false

namespace ChainLedger

/-- A forest of `size` ledgers; `below` gives the ledger on which one stands. -/
structure Layering where
  size : Nat
  below : Fin size → Option (Fin size)
  below_lt : ∀ i j, below i = some j → j < i

namespace Layering

def bare : Layering :=
  ⟨0, fun i => i.elim0, fun i => i.elim0⟩

def single : Layering :=
  ⟨1, fun _ => none, fun _ _ impossible => nomatch impossible⟩

/-- Two ledgers side by side on a third. -/
def fork : Layering :=
  ⟨3, fun i => if i = 0 then none else some 0, by decide⟩

/-- The layering in which the ledger at each position stands as listed, if each stands on the
parent or on a ledger listed before it. -/
def ofBelow? (listed : Array (Option Nat)) : Option Layering :=
  if earlier : ∀ i : Fin listed.size, listed[i].all (· < i.val) then
    some {
      size := listed.size
      below := fun i =>
        match found : listed[i] with
        | none => none
        | some j => some ⟨j, by
            have smaller := earlier i
            simp only [found, Option.all_some, decide_eq_true_eq] at smaller
            omega⟩
      below_lt := by
        intro i j stands
        have smaller := earlier i
        split at stands
        · cases stands
        · next k found =>
          cases stands
          simp only [found, Option.all_some, decide_eq_true_eq] at smaller
          exact Fin.lt_def.2 smaller }
  else
    none

/-- The ledgers passed on the way inwards from ledger `i`, itself first. -/
def path (layering : Layering) (i : Fin layering.size) : List (Fin layering.size) :=
  match stands : layering.below i with
  | none => [i]
  | some j =>
      have _smaller := layering.below_lt i j stands
      i :: layering.path j
termination_by i.val

theorem path_of_below_none {layering : Layering} {i : Fin layering.size}
    (stands : layering.below i = none) : layering.path i = [i] := by
  rw [path]
  split
  · rfl
  · next found => rw [stands] at found; cases found

theorem path_of_below_some {layering : Layering} {i j : Fin layering.size}
    (stands : layering.below i = some j) : layering.path i = i :: layering.path j := by
  rw [path]
  split
  · next found => rw [stands] at found; cases found
  · next found =>
    rw [stands, Option.some.injEq] at found
    rw [found]

theorem path_pairwise (layering : Layering) (i : Fin layering.size) :
    (layering.path i).Pairwise (· > ·) ∧ ∀ j ∈ layering.path i, j ≤ i := by
  cases stands : layering.below i with
  | none =>
    rw [path_of_below_none stands]
    exact ⟨List.pairwise_singleton _ _, fun j member =>
      Nat.le_of_eq (congrArg Fin.val (List.mem_singleton.1 member))⟩
  | some j =>
    have smaller := layering.below_lt i j stands
    obtain ⟨falling, bounded⟩ := layering.path_pairwise j
    rw [path_of_below_some stands]
    refine ⟨List.pairwise_cons.2 ⟨fun k member => ?_, falling⟩, fun k member => ?_⟩
    · exact Fin.lt_of_le_of_lt (bounded k member) smaller
    · rcases List.mem_cons.1 member with rfl | deeper
      · exact Fin.le_refl _
      · exact Fin.le_of_lt (Fin.lt_of_le_of_lt (bounded k deeper) smaller)
termination_by i.val

theorem path_nodup (layering : Layering) (i : Fin layering.size) : (layering.path i).Nodup :=
  (layering.path_pairwise i).1.imp fun greater => (Fin.ne_of_lt greater).symm

end Layering

/-- Where a block comes from: a ledger, or with `none` the parent itself. -/
abbrev Handle (T : Layering) : Type :=
  Option (Fin T.size)

/-- The ledgers through which a request made at a handle passes, outermost first. -/
def Handle.path {T : Layering} : Handle T → List (Fin T.size)
  | none => []
  | some i => T.path i

end ChainLedger
