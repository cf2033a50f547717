import ChainLedger.Parent

set_option autoImplicit false

namespace ChainLedger

/-- Addresses from `next` up to, but not including, `stop` are still free. -/
structure Arena where
  next : Nat
  stop : Nat
deriving DecidableEq

namespace Arena

/-- The first address of every arena. -/
def base : Nat := 4096

def ofCapacity (capacity : Nat) : Arena :=
  ⟨base, base + capacity⟩

/-- The most bytes that an arena can be opened with. -/
def capacityLimit : Nat := 16777216

/-- Whether a stretch lies where the blocks of some arena could lie. -/
def covers (addr size : Nat) : Bool :=
  base ≤ addr && addr + size ≤ base + capacityLimit

/-- Takes the next suitably aligned stretch, if it ends within the arena. -/
def allocate (layout : Layout) (arena : Arena) : Option Nat × Arena :=
  let start := roundUp arena.next layout.align
  if start + layout.size ≤ arena.stop then
    (some start, { arena with next := start + layout.size })
  else
    (none, arena)

def seek (addr : Nat) (arena : Arena) : Arena :=
  { arena with next := addr }

/-- Blocks given back are not used again, and a handle is one address wide. -/
instance : Parent Arena where
  Setting := Nat
  configure := seek
  allocate := allocate
  deallocate _ _ arena := arena
  handleSize := 8

theorem allocate_some {layout : Layout} {arena after : Arena} {addr : Nat}
    (granted : arena.allocate layout = (some addr, after)) :
    addr = roundUp arena.next layout.align ∧ after.next = addr + layout.size ∧
      after.stop = arena.stop := by
  simp only [allocate] at granted
  split at granted
  · simp only [Prod.mk.injEq, Option.some.injEq] at granted
    obtain ⟨rfl, rfl⟩ := granted
    exact ⟨rfl, rfl, rfl⟩
  · simp only [Prod.mk.injEq, reduceCtorEq, false_and] at granted

theorem allocate_none {layout : Layout} {arena after : Arena}
    (refused : arena.allocate layout = (none, after)) :
    after = arena ∧ arena.stop < roundUp arena.next layout.align + layout.size := by
  simp only [allocate] at refused
  split at refused
  · simp only [Prod.mk.injEq, reduceCtorEq, false_and] at refused
  · next full =>
    simp only [Prod.mk.injEq, true_and] at refused
    exact ⟨refused.symm, by omega⟩

/-- A block starts at or behind the position reached before, and the position moves past it. -/
theorem le_of_allocate_some {layout : Layout} {arena after : Arena} {addr : Nat}
    (positive : 0 < layout.align) (granted : arena.allocate layout = (some addr, after)) :
    arena.next ≤ addr ∧ addr + layout.size ≤ after.next := by
  obtain ⟨start, moved, _⟩ := allocate_some granted
  have above := le_roundUp arena.next layout.align positive
  omega

end Arena

end ChainLedger
