/-!
# Shortest decimals

A number of double precision is shown by the fewest decimal digits that read back as it. The numbers
that read back as `mantissa * 2 ^ exponent` lie between the halfway points to its neighbours, which
belong to it if its mantissa is even. Grids of powers of ten are tried from coarse to fine, and the
first grid with a point in between gives the digits. All comparisons are exact.
-/

namespace GdbMi
set_option autoImplicit false

/-- The decimal fraction `digits * 10 ^ exponent`. -/
structure Decimal where
  digits : Nat
  exponent : Int
deriving DecidableEq, Repr

/-- A finite number of double precision without its sign: `mantissa * 2 ^ exponent`. -/
structure Magnitude where
  mantissa : Nat
  exponent : Int
deriving DecidableEq, Repr

namespace Magnitude

/-- The least exponent. Numbers that have it may have a small mantissa. -/
def leastExponent : Int := -1074

/-- The least mantissa of numbers with a greater exponent. -/
def leastMantissa : Nat := Nat.pow 2 52

/-- The lower end of the numbers that read back, in quarters of the last binary digit. Below a power
of two the neighbour is half as far away. -/
def low (x : Magnitude) : Nat :=
  if x.mantissa = leastMantissa ∧ leastExponent < x.exponent then 4 * x.mantissa - 1
  else 4 * x.mantissa - 2

/-- The upper end of the numbers that read back, in quarters of the last binary digit. -/
def high (x : Magnitude) : Nat := 4 * x.mantissa + 2

/-- Whether the fraction `n / d`, in quarters of the last binary digit, reads back. -/
def readsBack (x : Magnitude) (n d : Nat) : Bool :=
  if x.mantissa % 2 = 0 then decide (x.low * d ≤ n ∧ n ≤ x.high * d)
  else decide (x.low * d < n ∧ n < x.high * d)

/-- The point of the grid of `10 ^ power` that reads back, as a multiple of it. Of the two points next
to the number the closer one is taken, and of two equally close ones the even one. -/
def onGrid? (x : Magnitude) (power : Int) : Option Nat :=
  -- a grid step is `step / unit` quarters of the last binary digit
  let step := Nat.pow 10 power.toNat * Nat.pow 2 (2 - x.exponent).toNat
  let unit := Nat.pow 10 (-power).toNat * Nat.pow 2 (x.exponent - 2).toNat
  let value := 4 * x.mantissa * unit
  let n := value / step
  let closer := 2 * value < (2 * n + 1) * step ∨ (2 * value = (2 * n + 1) * step ∧ n % 2 = 0)
  match x.readsBack (n * step) unit, x.readsBack ((n + 1) * step) unit with
  | true, true => some (if closer then n else n + 1)
  | true, false => some n
  | false, true => some (n + 1)
  | false, false => none

/-- The exact value as a decimal fraction. -/
def exactly (x : Magnitude) : Decimal :=
  if 0 ≤ x.exponent then ⟨x.mantissa * Nat.pow 2 x.exponent.toNat, 0⟩
  else ⟨x.mantissa * Nat.pow 5 (-x.exponent).toNat, x.exponent⟩

/-- The powers of ten whose grids are tried, from above all numbers to below the digits of the
least one. -/
def powers : List Int := (List.range 660).map fun (i : Nat) => 309 - (i : Int)

/-- The decimal fraction with the fewest digits that reads back as the number. -/
def shortest (x : Magnitude) : Decimal :=
  (powers.findSome? fun power => (x.onGrid? power).map fun n => ⟨n, power⟩).getD x.exactly

example : shortest ⟨3 * 2 ^ 51, -52⟩ = ⟨15, -1⟩ := by decide +kernel
example : shortest ⟨1, leastExponent⟩ = ⟨5, -324⟩ := by decide +kernel

end Magnitude

/-- A decimal fraction as written: plain from a ten-thousandth up to ten quadrillion, with an exponent
of two digits or more outside, and always with a point or an exponent. -/
def Decimal.display (d : Decimal) : String :=
  let digits := Nat.toDigits 10 d.digits
  -- the value is 0.digits times ten to the power of `point`
  let point : Int := digits.length + d.exponent
  let text := String.ofList
  let zeros (n : Int) := List.replicate n.toNat '0'
  if -4 < point ∧ point ≤ 0 then "0." ++ text (zeros (-point) ++ digits)
  else if 0 < point ∧ point ≤ 16 then
    let fraction := digits.drop point.toNat
    text (digits.take point.toNat ++ zeros (point - digits.length)) ++ "."
      ++ (if fraction.isEmpty then "0" else text fraction)
  else
    let power := point - 1
    let fraction := if digits.length = 1 then "" else "." ++ text (digits.drop 1)
    text (digits.take 1) ++ fraction ++ (if power < 0 then "e-" else "e+")
      ++ (if power.natAbs < 10 then "0" else "") ++ toString power.natAbs

/-- A number of double precision as written, with its sign, which zero has too. -/
def displayFloat (x : Float) : String :=
  let bits := x.toBits.toNat
  let fraction := bits % Nat.pow 2 52
  let size := match bits / Nat.pow 2 52 % Nat.pow 2 11 with
    | 0 =>
      if fraction = 0 then "0.0"
      else (Magnitude.mk fraction Magnitude.leastExponent).shortest.display
    | 2047 => if fraction = 0 then "inf" else "nan"
    | field =>
      (Magnitude.mk (Nat.pow 2 52 + fraction)
        (Magnitude.leastExponent + field - 1)).shortest.display
  if bits / Nat.pow 2 63 = 1 then "-" ++ size else size

end GdbMi
