/-!
# Decimal — fixed-point text of exact values

Averages and rates are printed with a fixed number of decimal places. The text
is that of the exact value of the number as it is stored: the value is brought
to the decimal grid by one rounding division, and a tie goes to the even
neighbour.
-/

namespace CacheCoherence.Decimal

-- A power of a number is the built-in one, whatever else is in scope.
attribute [local instance (high)] instPowNat

/-- `num / den` rounded to the nearest integer, a tie to the even one. -/
def roundDiv (num den : Nat) : Nat :=
  let q := num / den
  let r := num % den
  if den < 2 * r ∨ (2 * r = den ∧ q % 2 = 1) then q + 1 else q

/-- Rounding moves the value by at most half a unit. -/
theorem roundDiv_near (num : Nat) {den : Nat} (h : 0 < den) :
    2 * (roundDiv num den * den) ≤ 2 * num + den ∧ 2 * num ≤ 2 * (roundDiv num den * den) + den := by
  have hdm := Nat.div_add_mod num den
  have hlt := Nat.mod_lt num h
  unfold roundDiv
  simp only
  split
  · next hup =>
    rw [Nat.add_mul, Nat.mul_comm (num / den) den]
    omega
  · next hdown =>
    rw [Nat.mul_comm (num / den) den]
    omega

/-- A tie goes to the even neighbour. -/
theorem roundDiv_tie {num den : Nat} (h : 2 * (num % den) = den) : roundDiv num den % 2 = 0 := by
  unfold roundDiv
  simp only
  split <;> omega

/-- `s` filled up with zeros in front to at least `width` characters. -/
def padZeros (width : Nat) (s : String) : String :=
  String.ofList (List.replicate (width - s.length) '0') ++ s

/-- The decimal text, with `places` digits after the point, of `scaled / 10 ^ places`. -/
def pointText (places scaled : Nat) : String :=
  let unit := 10 ^ places
  s!"{scaled / unit}." ++ padZeros places (toString (scaled % unit))

/-- A non-negative finite binary64 number as `significand * 2 ^ exponent`, the
exponent given as a pair of a power to multiply by and a power to divide by. -/
structure Binary where
  significand : Nat
  up : Nat
  down : Nat
deriving DecidableEq, Repr

/-- The exact value behind the bits of a non-negative finite number. -/
def Binary.ofBits (bits : UInt64) : Binary :=
  let fraction := bits.toNat % 2 ^ (52 : Nat)
  let biased := bits.toNat / 2 ^ (52 : Nat) % 2 ^ (11 : Nat)
  if biased = 0 then { significand := fraction, up := 0, down := 1074 }
  else
    { significand := 2 ^ (52 : Nat) + fraction
      up := biased - 1075
      down := 1075 - biased }

/-- The text of a non-negative finite number with `places` digits after the
point, rounded from its exact value. -/
def fixed (places : Nat) (x : Float) : String :=
  let b := Binary.ofBits x.toBits
  pointText places (roundDiv (b.significand * 2 ^ b.up * 10 ^ places) (2 ^ b.down))

/-- A count as a floating-point number; exact below `2 ^ 53`. -/
def ofCount (n : Nat) : Float := (UInt64.ofNat n).toFloat

/-- The quotient of two counts, zero where there is nothing to divide by. -/
def ratio (num den : Nat) : Float :=
  if den = 0 then 0 else ofCount num / ofCount den

end CacheCoherence.Decimal
