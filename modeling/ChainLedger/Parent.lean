import ChainLedger.Layout

set_option autoImplicit false

namespace ChainLedger

/-- An allocator at the bottom, with states `π`. -/
class Parent (π : Type) where
  /-- What can be changed about the parent from outside, between requests. -/
  Setting : Type
  configure : Setting → π → π
  /-- Answers with the address of a block, or with `none` for lack of room. -/
  allocate : Layout → π → Option Nat × π
  deallocate : Nat → Layout → π → π
  /-- How many bytes a record needs to remember that its block came straight from this parent. -/
  handleSize : Nat

end ChainLedger
