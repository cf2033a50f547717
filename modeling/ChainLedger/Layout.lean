set_option autoImplicit false

namespace ChainLedger

/-- The shape of a block, agreed on when it is allocated and named again when it is released. -/
structure Layout where
  size : Nat
  align : Nat
deriving DecidableEq

/-- The least multiple of `align` that is not below `n`. -/
def roundUp (n align : Nat) : Nat :=
  (n + (align - 1)) / align * align

theorem le_roundUp (n align : Nat) (positive : 0 < align) : n ≤ roundUp n align := by
  have split := Nat.div_add_mod (n + (align - 1)) align
  have small := Nat.mod_lt (n + (align - 1)) positive
  rw [Nat.mul_comm] at split
  simp only [roundUp]
  omega

theorem dvd_roundUp (n align : Nat) : align ∣ roundUp n align :=
  Nat.dvd_mul_left align _

/-- A number already divisible by the alignment stays where it is. -/
theorem roundUp_of_dvd (n align : Nat) (positive : 0 < align) (divides : align ∣ n) :
    roundUp n align = n := by
  obtain ⟨k, rfl⟩ := divides
  have quotient : (align * k + (align - 1)) / align = k := by
    rw [Nat.mul_add_div positive, Nat.div_eq_of_lt (by omega), Nat.add_zero]
  rw [roundUp, quotient, Nat.mul_comm]

namespace Layout

/-- No block reaches past this size, not even after rounding up to its alignment. -/
def sizeLimit : Nat := 0x7FFFFFFFFFFFFFFF

/-- The layout asked for, if there is one: its alignment is a power of two and its size, rounded
up to the alignment, stays within the limit. -/
def ofRequest? (size align : Nat) : Option Layout :=
  if align.isPowerOfTwo ∧ roundUp size align ≤ sizeLimit then some ⟨size, align⟩ else none

theorem ofRequest?_eq_some_iff {size align : Nat} {layout : Layout} :
    ofRequest? size align = some layout ↔
      layout = ⟨size, align⟩ ∧ align.isPowerOfTwo ∧ roundUp size align ≤ sizeLimit := by
  simp only [ofRequest?]
  split
  · next allowed => simp only [Option.some.injEq, allowed, and_self, and_true, eq_comm]
  · next refused => simp only [reduceCtorEq, refused, and_false]

end Layout

end ChainLedger
