set_option autoImplicit false

namespace ChainLedger

inductive Style where
  /-- Decimal numbers on one line. -/
  | plain
  /-- Decimal numbers, each item on a line of its own. -/
  | spread
  /-- Decimal numbers, filled up with blanks on the left to five characters. -/
  | wide
  /-- Lower-case hexadecimal numbers without a mark, negative ones as 64-bit two's complement. -/
  | hex
  /-- Decimal numbers, those that are not negative with a plus sign. -/
  | signed
deriving DecidableEq

namespace Style

def decimal (n : Int) : List Char :=
  if n < 0 then '-' :: Nat.toDigits 10 n.natAbs else Nat.toDigits 10 n.natAbs

def value (style : Style) (v : Int64) : List Char :=
  match style with
  | plain => decimal v.toInt
  | spread => decimal v.toInt
  | wide => List.leftpad 5 ' ' (decimal v.toInt)
  | hex => Nat.toDigits 16 v.toUInt64.toNat
  | signed => if v.toInt < 0 then decimal v.toInt else '+' :: decimal v.toInt

def count (style : Style) (n : Nat) : List Char :=
  match style with
  | plain => Nat.toDigits 10 n
  | spread => Nat.toDigits 10 n
  | wide => List.leftpad 5 ' ' (Nat.toDigits 10 n)
  | hex => Nat.toDigits 16 n
  | signed => '+' :: Nat.toDigits 10 n

end Style

end ChainLedger
