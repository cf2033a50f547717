import ChainLedger.Chain

set_option autoImplicit false

namespace ChainLedger

/-- The values not read yet. -/
structure ValueStream where
  remaining : List Int64
deriving DecidableEq

namespace ValueStream

def ofTail {T : Layering} (tail : Tail T) : ValueStream :=
  ⟨Tail.values tail⟩

/-- Skips `count` values and reads the one behind them; short of values, it ends the stream. -/
def skip (count : Nat) (stream : ValueStream) : Option Int64 × ValueStream :=
  match stream.remaining.drop count with
  | [] => (none, ⟨[]⟩)
  | value :: remaining => (some value, ⟨remaining⟩)

def next (stream : ValueStream) : Option Int64 × ValueStream :=
  stream.skip 0

/-- A stream knows a lower bound for the number of values to come, and no upper bound. -/
def sizeHint (_ : ValueStream) : Nat × Option Nat :=
  (0, none)

def count (stream : ValueStream) : Nat :=
  stream.remaining.length

def last (stream : ValueStream) : Option Int64 :=
  stream.remaining.getLast?

theorem skip_eq (count : Nat) (stream : ValueStream) :
    stream.skip count = (stream.remaining[count]?, ⟨stream.remaining.drop (count + 1)⟩) := by
  simp only [skip]
  rw [← List.head?_drop, ← List.drop_drop]
  split
  · next ended => rw [ended]; rfl
  · next value remaining found => rw [found]; rfl

end ValueStream

end ChainLedger
