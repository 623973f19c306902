import StyleCheck.Decimal.Binary64

namespace StyleCheck.Decimal

/-- The decimals that read back as `mantissa * 2 ^ exponent`, over one denominator. -/
structure Interval where
  low : Nat
  value : Nat
  high : Nat
  den : Nat
  closed : Bool

def interval (mantissa : Nat) (exponent : Int) : Interval :=
  let unit := Nat.pow 2 exponent.toNat
  let below := if mantissa = Nat.pow 2 52 ∧ Binary64.leastExponent < exponent then unit else 2 * unit
  { low := 4 * mantissa * unit - below
    value := 4 * mantissa * unit
    high := 4 * mantissa * unit + 2 * unit
    den := 4 * Nat.pow 2 (-exponent).toNat
    closed := mantissa % 2 == 0 }

def Interval.contains (i : Interval) (num : Nat) : Bool :=
  if i.closed then i.low ≤ num && num ≤ i.high else i.low < num && num < i.high

def Interval.atPlace? (i : Interval) (place : Int) : Option Nat :=
  let up := Nat.pow 10 (-place).toNat
  let step := Nat.pow 10 place.toNat * i.den
  let i := { i with low := i.low * up, value := i.value * up, high := i.high * up }
  let down := i.value / step
  let remainder := i.value - down * step
  let lower := if i.contains (down * step) then some down else none
  let upper := if i.contains ((down + 1) * step) then some (down + 1) else none
  if 2 * remainder < step then lower.or upper else upper.or lower

def Interval.shortestFrom (i : Interval) (top : Int) : Nat → Nat → Nat × Int
  | 0, digits => ((i.atPlace? (top - digits)).getD 0, top - digits)
  | more + 1, digits =>
    match i.atPlace? (top - digits) with
    | some n => (n, top - digits)
    | none => i.shortestFrom top more (digits + 1)

def topPlace (num den : Nat) : Int :=
  let quotient := num / den
  if 0 < quotient then (Nat.toDigits 10 quotient).length
  else 1 - (Nat.toDigits 10 (den / num)).length + 1

def shortest (mantissa : Nat) (exponent : Int) : Nat × Int :=
  if mantissa = 0 then (0, 0)
  else
    let i := interval mantissa exponent
    i.shortestFrom (topPlace i.value i.den) 19 0

def positional (digits : Nat) (exponent : Int) : String :=
  let shown := Nat.toDigits 10 digits
  if 0 ≤ exponent then
    String.ofList (if digits = 0 then ['0'] else shown ++ List.replicate exponent.toNat '0') ++ ".0"
  else
    let places := (-exponent).toNat
    let padded := List.replicate (places + 1 - shown.length) '0' ++ shown
    String.ofList (padded.take (padded.length - places)) ++ "." ++
      String.ofList (padded.drop (padded.length - places))

def Binary64.text : Binary64 → String
  | .nan => "NaN"
  | .infinite negative => if negative then "-inf" else "inf"
  | .finite negative mantissa exponent =>
    let (digits, place) := shortest mantissa exponent
    (if negative then "-" else "") ++ positional digits place

end StyleCheck.Decimal
