/-!
# Shortest decimal texts

A double-precision number is written with the fewest digits that read back as
the same number. `BinaryParts` splits its bits into sign, significand and
exponent. The reals that round to `m · 2 ^ q` form an interval around it, which
`Rounds` describes in exact arithmetic, its ends belonging to it exactly when
`m` is even. Among the powers of ten, the coarsest grid that meets the interval
gives the fewest digits; if both neighbours of the number on that grid round to
it, the nearer one is taken, and the upper one when they are equally near.

Two notations are built from the digits: `positional` never has an exponent,
`scientific` always has one.
-/

namespace TraceSubstitution

/-- What the bits of a double-precision number say. -/
inductive BinaryParts where
  /-- Not a number. -/
  | nan
  /-- An infinity with its sign. -/
  | infinite (negative : Bool)
  /-- The number `± significand · 2 ^ exponent`. -/
  | finite (negative : Bool) (significand : Nat) (exponent : Int)
deriving DecidableEq

namespace BinaryParts

/-- The significand of a power of two: one bit before the 52 bits of a fraction. -/
def leadingBit : Nat := 0x10000000000000

/-- Splits a bit pattern of double precision. -/
def ofBits (bits : Nat) : BinaryParts :=
  let negative := decide (bits / 0x8000000000000000 % 2 = 1)
  let exponent : Nat := bits / leadingBit % 2048
  let fraction : Nat := bits % leadingBit
  if exponent = 2047 then
    if fraction = 0 then infinite negative else nan
  else if exponent = 0 then finite negative fraction (-1074)
  else finite negative (leadingBit + fraction) (exponent - 1075)

/-- Splits a number. -/
def ofFloat (x : Float) : BinaryParts := ofBits x.toBits.toNat

end BinaryParts

/-- A decimal number `digits · 10 ^ exponent`. -/
structure Decimal where
  /-- The digits without the point. -/
  digits : Nat
  /-- The power of ten that the last digit counts. -/
  exponent : Int
deriving DecidableEq

namespace Decimal

/-- A quotient `4 · m · 2 ^ (q - 2) / 10 ^ k` written as a numerator per unit and a
denominator: the first is multiplied by `4 · m`. -/
def scale (q k : Int) : Nat × Nat :=
  (Nat.pow 2 (q - 2).toNat * Nat.pow 10 (-k).toNat, Nat.pow 2 (2 - q).toNat * Nat.pow 10 k.toNat)

/-- How far the interval of `m · 2 ^ q` reaches below, in quarters of `2 ^ q`. Just above a
power of two the numbers below lie twice as close. -/
def reachBelow (m : Nat) (q : Int) : Nat :=
  if m = BinaryParts.leadingBit ∧ -1074 < q then 1 else 2

/-- Whether `d · 10 ^ k` rounds to `m · 2 ^ q`. -/
def Rounds (m : Nat) (q : Int) (d : Nat) (k : Int) : Prop :=
  let (unit, den) := scale q k
  let low := (4 * m - reachBelow m q) * unit
  let high := (4 * m + 2) * unit
  if m % 2 = 0 then low ≤ d * den ∧ d * den ≤ high else low < d * den ∧ d * den < high

instance (m : Nat) (q : Int) (d : Nat) (k : Int) : Decidable (Rounds m q d k) := by
  unfold Rounds; exact inferInstance

/-- The point of the grid `10 ^ k` that stands for `m · 2 ^ q`, if the grid has one. -/
def onGrid? (m : Nat) (q k : Int) : Option Nat :=
  let (unit, den) := scale q k
  let down := 4 * m * unit / den
  let up := down + 1
  if Rounds m q down k then
    if Rounds m q up k ∧ (down + up) * den ≤ 2 * (4 * m * unit) then some up else some down
  else if Rounds m q up k then some up
  else none

/-- A power of ten above `m · 2 ^ q`. -/
def ceilingExponent (m : Nat) (q : Int) : Int :=
  (Int.ofNat m.log2 + q + 1) * 30103 / 100000 + 1

/-- The shortest decimal that stands for `m · 2 ^ q`: the first hit on ever finer grids. -/
def shortest (m : Nat) (q : Int) : Decimal :=
  let top := ceilingExponent m q
  ((List.range 20).findSome? fun (step : Nat) =>
      (onGrid? m q (top - step)).map fun d => ⟨d, top - step⟩).getD ⟨m, 0⟩

/-- `digits · 10 ^ exponent` without an exponent: `120`, `0.012`. -/
def positional (d : Decimal) : String :=
  let digits := toString d.digits
  if 0 ≤ d.exponent then digits ++ String.ofList (List.replicate d.exponent.toNat '0')
  else
    let places := (-d.exponent).toNat
    let padded := String.ofList (List.replicate (places + 1 - digits.length) '0') ++ digits
    let whole := padded.length - places
    String.ofList (padded.toList.take whole) ++ "." ++ String.ofList (padded.toList.drop whole)

/-- The same number with one digit before the point and an exponent: `1.2e-5`. -/
def scientific (d : Decimal) : String :=
  let digits := (toString d.digits).toList
  let exponent := d.exponent + (digits.length - 1 : Nat)
  let fraction := String.ofList (digits.drop 1)
  String.ofList (digits.take 1) ++ (if fraction = "" then "" else "." ++ fraction)
    ++ "e" ++ toString exponent

end Decimal

/-- How the numbers of a document are written. -/
structure NumberStyle where
  /-- Whether a whole number keeps a point and a zero. -/
  keepPoint : Bool
  /-- The exponents of the first digit that are still written positionally. -/
  positionalFrom : Option Int
  /-- The first exponent of the first digit that is no longer written positionally. -/
  positionalBelow : Option Int

namespace NumberStyle

/-- Never an exponent, no point in whole numbers: `1`, `0.1`, `100000000000000000000`. -/
def plain : NumberStyle := ⟨false, none, none⟩

/-- Positional from `1e-4` to below `1e16`, with a point also in whole numbers: `1.0`, `1e16`. -/
def explicit : NumberStyle := ⟨true, some (-4), some 16⟩

/-- Whether a number whose first digit counts `10 ^ exponent` is written positionally. -/
def isPositional (style : NumberStyle) (exponent : Int) : Bool :=
  style.positionalFrom.all (· ≤ exponent) && style.positionalBelow.all (exponent < ·)

/-- A number in this style. -/
def write (style : NumberStyle) (x : Float) : String :=
  let signed (negative : Bool) (s : String) : String := if negative then "-" ++ s else s
  match BinaryParts.ofFloat x with
  | .nan => "NaN"
  | .infinite negative => signed negative "inf"
  | .finite negative 0 _ => signed negative (if style.keepPoint then "0.0" else "0")
  | .finite negative m q =>
    let d := Decimal.shortest m q
    let lead := d.exponent + ((toString d.digits).length - 1 : Nat)
    if style.isPositional lead then
      signed negative (d.positional ++ if style.keepPoint && 0 ≤ d.exponent then ".0" else "")
    else signed negative d.scientific

end NumberStyle

end TraceSubstitution
