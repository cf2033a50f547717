import ChainLedger.Parent

set_option autoImplicit false

namespace ChainLedger

/-- `remaining` limits how many requests will still be granted; `none` sets no limit. -/
structure Heap where
  next : Nat
  remaining : Option Nat
deriving DecidableEq

namespace Heap

/-- A heap that has handed out nothing yet and never fails. -/
def fresh : Heap :=
  ⟨4096, none⟩

def allocate (layout : Layout) (heap : Heap) : Option Nat × Heap :=
  if heap.remaining = some 0 then
    (none, heap)
  else
    let start := roundUp heap.next layout.align
    (some start, ⟨start + layout.size, heap.remaining.map (· - 1)⟩)

/-- Limits the requests that will still be granted, or lifts the limit. -/
def failAfter (remaining : Option Nat) (heap : Heap) : Heap :=
  { heap with remaining }

/-- There is one heap, so a record need not remember it. -/
instance : Parent Heap where
  Setting := Option Nat
  configure := failAfter
  allocate := allocate
  deallocate _ _ heap := heap
  handleSize := 0

theorem allocate_of_spent {layout : Layout} {heap : Heap} (spent : heap.remaining = some 0) :
    heap.allocate layout = (none, heap) := by
  simp only [allocate, spent, ↓reduceIte]

theorem allocate_of_left {layout : Layout} {heap : Heap} (left : heap.remaining ≠ some 0) :
    heap.allocate layout =
      (some (roundUp heap.next layout.align),
        ⟨roundUp heap.next layout.align + layout.size, heap.remaining.map (· - 1)⟩) := by
  simp only [allocate, left, ↓reduceIte]

end Heap

end ChainLedger
