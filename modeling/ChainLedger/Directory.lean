set_option autoImplicit false

namespace ChainLedger

/-- Entries by name, the one put last in front. -/
structure Directory (α : Type) where
  entries : List (String × α)
  /-- No name occurs twice. -/
  names_nodup : (entries.map Prod.fst).Nodup
deriving DecidableEq

namespace Directory

variable {α β : Type}

def empty : Directory α :=
  ⟨[], List.nodup_nil⟩

def get? (name : String) (directory : Directory α) : Option α :=
  directory.entries.lookup name

def erase (name : String) (directory : Directory α) : Directory α where
  entries := directory.entries.filter fun entry => entry.1 ≠ name
  names_nodup := directory.names_nodup.sublist (List.filter_sublist.map Prod.fst)

def put (name : String) (held : α) (directory : Directory α) : Directory α where
  entries := (name, held) :: (directory.erase name).entries
  names_nodup := by
    refine List.nodup_cons.2 ⟨fun member => ?_, (directory.erase name).names_nodup⟩
    obtain ⟨entry, kept, same⟩ := List.mem_map.1 member
    exact of_decide_eq_true (List.mem_filter.1 kept).2 same

/-- All entries in ascending order of their names. -/
def ascending (directory : Directory α) : List (String × α) :=
  directory.entries.mergeSort fun first second => first.1 ≤ second.1

def map (change : α → β) (directory : Directory α) : Directory β where
  entries := directory.entries.map fun entry => (entry.1, change entry.2)
  names_nodup := by
    have names : (Prod.fst ∘ fun entry : String × α => (entry.1, change entry.2)) = Prod.fst := rfl
    rw [List.map_map, names]
    exact directory.names_nodup

theorem ext {first second : Directory α} (entries : first.entries = second.entries) :
    first = second := by
  obtain ⟨_, _⟩ := first
  obtain ⟨_, _⟩ := second
  cases entries
  rfl

@[simp] theorem get?_empty (name : String) : (empty : Directory α).get? name = none := rfl

theorem get?_erase (name other : String) (directory : Directory α) :
    (directory.erase name).get? other = if name = other then none else directory.get? other := by
  obtain ⟨entries, unique⟩ := directory
  simp only [get?, erase]
  clear unique
  induction entries with
  | nil => simp only [List.filter_nil, List.lookup_nil, ite_self]
  | cons entry rest ih =>
    obtain ⟨found, held⟩ := entry
    by_cases same : found = name
    · subst same
      simp only [ne_eq, not_true_eq_false, decide_false, Bool.false_eq_true, not_false_eq_true,
        List.filter_cons_of_neg, ih]
      by_cases equal : found = other
      · simp only [equal, ↓reduceIte]
      · have differs : (other == found) = false := by
          simpa only [beq_eq_false_iff_ne] using Ne.symm equal
        simp only [equal, ↓reduceIte, List.lookup_cons, differs]
    · simp only [ne_eq, same, not_false_eq_true, decide_true, List.filter_cons_of_pos,
        List.lookup_cons, ih]
      by_cases equal : name = other
      · have differs : (other == found) = false := by
          simpa only [beq_eq_false_iff_ne, ← equal] using Ne.symm same
        simp only [equal, ↓reduceIte, differs]
      · simp only [equal, ↓reduceIte]

theorem get?_put (name other : String) (held : α) (directory : Directory α) :
    (directory.put name held).get? other =
      if name = other then some held else directory.get? other := by
  rw [get?, put, List.lookup_cons]
  by_cases equal : name = other
  · simp only [equal, beq_self_eq_true, ↓reduceIte]
  · have differs : (other == name) = false := by
      simpa only [beq_eq_false_iff_ne] using Ne.symm equal
    have erased := get?_erase name other directory
    simp only [get?, equal, ↓reduceIte] at erased
    simp only [differs, erased, get?, equal, ↓reduceIte]

theorem ascending_perm (directory : Directory α) :
    directory.ascending.Perm directory.entries :=
  List.mergeSort_perm _ _

@[simp] theorem map_empty (change : α → β) : (empty : Directory α).map change = empty := rfl

theorem get?_map (change : α → β) (name : String) (directory : Directory α) :
    (directory.map change).get? name = (directory.get? name).map change := by
  simp only [get?, map]
  induction directory.entries with
  | nil => rfl
  | cons entry rest ih =>
    rw [List.map_cons, List.lookup_cons, List.lookup_cons, ih]
    cases name == entry.1 <;> rfl

theorem map_erase (change : α → β) (name : String) (directory : Directory α) :
    (directory.erase name).map change = (directory.map change).erase name := by
  apply ext
  simp only [map, erase, List.filter_map]
  rfl

theorem map_put (change : α → β) (name : String) (held : α) (directory : Directory α) :
    (directory.put name held).map change = (directory.map change).put name (change held) := by
  apply ext
  have erased := congrArg entries (map_erase change name directory)
  simp only [map] at erased
  simp only [map, put, List.map_cons, erased]

theorem ascending_map (change : α → β) (directory : Directory α) :
    (directory.map change).ascending =
      directory.ascending.map fun entry => (entry.1, change entry.2) := by
  simp only [ascending, map]
  symm
  apply List.map_mergeSort
  intro first _ second _
  rfl

end Directory

end ChainLedger
