import Mathlib

/-! `double` with exact arithmetic: NaN, the infinities and the rationals. -/

namespace NCollectd

inductive Double where
  | nan
  | negInf
  | fin (value : ℚ)
  | posInf
deriving DecidableEq

namespace Double

def ofNat (n : Nat) : Double := fin n

def less : Double → Double → Bool
  | nan, _ | _, nan => false
  | negInf, negInf => false
  | negInf, _ => true
  | fin _, negInf => false
  | fin a, fin b => a < b
  | fin _, posInf => true
  | posInf, _ => false

def same (a b : Double) : Bool := a ≠ nan && a = b

def lessEq (a b : Double) : Bool := less a b || same a b

/-- An infinity with the sign of a rational; the product of zero and an infinity is NaN. -/
def infinity (sign : ℚ) : Double := if sign = 0 then nan else if 0 < sign then posInf else negInf

/-- The number with these 64 bits: a sign, 11 bits of exponent and 52 of mantissa. -/
def ofBits (bits : UInt64) : Double :=
  let sign : ℚ := if bits.toNat / 2 ^ 63 = 0 then 1 else -1
  let exponent : Nat := bits.toNat / 2 ^ 52 % 2 ^ 11
  let mantissa : Nat := bits.toNat % 2 ^ 52
  if exponent = 0 then fin (sign * (mantissa / 2 ^ 1074))
  else if exponent = 2047 then if mantissa = 0 then infinity sign else nan
  else fin (sign * ((2 ^ 52 + mantissa) * 2 ^ exponent / 2 ^ 1075))

def neg : Double → Double
  | nan => nan
  | negInf => posInf
  | fin a => fin (-a)
  | posInf => negInf

def add : Double → Double → Double
  | nan, _ | _, nan => nan
  | fin a, fin b => fin (a + b)
  | fin _, b => b
  | a, fin _ => a
  | negInf, posInf | posInf, negInf => nan
  | negInf, negInf => negInf
  | posInf, posInf => posInf

def sub (a b : Double) : Double := add a (neg b)

def mul : Double → Double → Double
  | nan, _ | _, nan => nan
  | fin a, fin b => fin (a * b)
  | fin a, posInf | posInf, fin a => infinity a
  | fin a, negInf | negInf, fin a => infinity (-a)
  | negInf, negInf | posInf, posInf => posInf
  | negInf, posInf | posInf, negInf => negInf

def div : Double → Double → Double
  | nan, _ | _, nan => nan
  | fin a, fin b => if b = 0 then infinity a else fin (a / b)
  | fin _, _ => fin 0
  | posInf, fin b => if b < 0 then negInf else posInf
  | negInf, fin b => if b < 0 then posInf else negInf
  | _, _ => nan

def pow (base : Double) : Nat → Double
  | 0 => fin 1
  | n + 1 => mul (pow base n) base

theorem less_trans (first : less a b = true) (second : less b c = true) : less a c = true := by
  cases a <;> cases b <;> cases c <;> simp_all [less]
  linarith

theorem lessEq_eq_not_less (first : a ≠ nan) (second : b ≠ nan) : lessEq a b = !less b a := by
  cases a <;> cases b <;> simp_all [lessEq, less, same]
  grind

theorem not_lessEq_of_less (below : less a b = true) : lessEq b a = false := by
  cases a <;> cases b <;> simp_all [less, lessEq, same]
  grind

end Double

end NCollectd
