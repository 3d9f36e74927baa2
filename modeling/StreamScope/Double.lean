/-!
Non-negative numbers of 64-bit binary arithmetic. All of them are multiples of
the least one, and a number keeps its first 53 bits. Exact quotients are rounded
to the nearest number, ties to the even one; beyond the largest there is none. A
number is given back as the shortest decimal that rounds to it, of several the
nearest.
-/

namespace StreamScope

/-- A number, counted in units of `2 ^ (-1074)`. -/
structure Double where
  units : Nat
deriving DecidableEq, Repr

namespace Double

def unitsPerOne : Nat := Nat.pow 2 1074

/-- The quotient rounded to the nearest integer, ties to the even one. -/
def roundDiv (n d : Nat) : Nat :=
  let low := n / d
  let twice := 2 * (n % d)
  if twice < d ∨ twice = d ∧ low % 2 = 0 then low else low + 1

/-- The nearest number to `n / d`. -/
def ofQuotient? (n d : Nat) : Option Double :=
  let step := Nat.pow 2 (Nat.log2 (n * unitsPerOne / d) - 52)
  let units := roundDiv (n * unitsPerOne) (d * step) * step
  if units < Nat.pow 2 1024 * unitsPerOne then some ⟨units⟩ else none

/-- The nearest number to `digits * 10 ^ power`. Far outside the range that the numbers cover it
is zero or none, whatever the digits are. -/
def ofDecimal? (digits : Nat) (power : Int) : Option Double :=
  let leading := (Nat.toDigits 10 digits).length + power
  if digits = 0 ∨ leading < -400 then some ⟨0⟩
  else if 400 < leading then none
  else ofQuotient? (digits * Nat.pow 10 power.toNat) (Nat.pow 10 (-power).toNat)

def mul? (x y : Double) : Option Double :=
  ofQuotient? (x.units * y.units) (unitsPerOne * unitsPerOne)

def div? (x y : Double) : Option Double := ofQuotient? x.units y.units

/-- The largest power of ten. -/
def maxPower : Nat := 308

/-- Multiplies by a power of ten, or divides by one, in steps that are each rounded. -/
def scale? (x : Double) (power : Int) : Option Double :=
  if h : -maxPower ≤ power then
    if power ≤ maxPower then do
      let factor ← ofDecimal? (Nat.pow 10 power.natAbs) 0
      if 0 ≤ power then x.mul? factor else x.div? factor
    else if x.units = 0 then some x
    else none
  else if x.units = 0 then some x
  else do
    let least ← ofDecimal? (Nat.pow 10 maxPower) 0
    let y ← x.div? least
    y.scale? (power + maxPower)
termination_by (-power).toNat
decreasing_by
  simp only [maxPower] at *
  omega

/-- The number times `10 ^ 1074`, which is whole. -/
def scaled (x : Double) : Nat := x.units * Nat.pow 5 1074

/-- A decimal on the grid of `10 ^ power` that rounds to the number, the nearer of two. -/
def onGrid? (x : Double) (power : Int) : Option Nat :=
  let spacing := Nat.pow 10 (power + 1074).toNat
  let low := x.scaled / spacing
  let near := roundDiv x.scaled spacing
  let far := if near = low then low + 1 else low
  [near, far].find? fun digits => ofDecimal? digits power = some x

/-- The shortest decimal that rounds to the number: its digits and its power of ten. -/
def shortest (x : Double) : Nat × Int :=
  let leading : Int := (Nat.toDigits 10 x.scaled).length - 1074
  let found := (List.range 17).findSome? fun (i : Nat) =>
    let power := leading - (i + 1 : Nat)
    (x.onGrid? power).map fun digits => (digits, power)
  found.getD (x.scaled, -1074)

end Double
end StreamScope
