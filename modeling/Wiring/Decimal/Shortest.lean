/-!
# Shortest decimals

A positive binary64 number `m · 2^q` is the image of an interval of real numbers under rounding
to nearest. `Decimal.shortest m q` is the decimal with the fewest digits in that interval, and of
those the one nearest to the number, a tie going up.

`Decimal.positional` writes a number with these digits and without an exponent, the shortest text
that reads back.
-/

namespace Wiring

/-- The number `digits · 10^exponent`. -/
structure Decimal where
  /-- The digits as a number. -/
  digits : Nat
  /-- The power of ten. -/
  exponent : Int
deriving DecidableEq, Repr

namespace Decimal

/-- A number as a fraction: `m · 2^q` over a common denominator. -/
def ratio (m : Nat) (q : Int) : Nat × Nat :=
  if 0 ≤ q then (m <<< q.toNat, 1) else (m, 1 <<< (-q).toNat)

/-- The ends of the interval that rounds to `m · 2^q`, as numerators over `4 · 2^(-q)`: halfway to
the neighbours, where the lower neighbour is nearer if `m` is the least of its binade. -/
def halfway (m : Nat) (leastOfBinade : Bool) : Nat × Nat :=
  (4 * m - (if leastOfBinade then 1 else 2), 4 * m + 2)

/-- The decimal with exponent `e` in the interval from `lo` to `hi` that is nearest to `x`, the
greater of two that are as near, if the grid of the multiples of `10^e` has a point there. All three
numbers are over `den`; the ends of the interval count if `closed`. -/
def onGrid? (lo x hi den : Nat) (closed : Bool) (e : Int) : Option Decimal :=
  let scaleNum := if 0 ≤ e then Nat.pow 10 e.toNat else 1
  let scaleDen := if 0 ≤ e then 1 else Nat.pow 10 (-e).toNat
  let unit := den * scaleNum
  let inside (d : Nat) : Bool :=
    let v := d * unit
    if closed then lo * scaleDen ≤ v && v ≤ hi * scaleDen
    else lo * scaleDen < v && v < hi * scaleDen
  let below := x * scaleDen / unit
  let above := below + 1
  let offset := x * scaleDen - below * unit
  let nearer := if 2 * offset < unit then below else above
  let other := if nearer = below then above else below
  if inside nearer && nearer != 0 then some ⟨nearer, e⟩
  else if inside other && other != 0 then some ⟨other, e⟩
  else none

/-- The first grid with a point in the interval, from the exponent `e` downwards. -/
def firstGrid (lo x hi den : Nat) (closed : Bool) : Nat → Int → Decimal
  | 0, e => ⟨x / den, e⟩
  | n + 1, e =>
    match onGrid? lo x hi den closed e with
    | some d => d
    | none => firstGrid lo x hi den closed n (e - 1)

/-- The shortest decimal that rounds to `m · 2^q`, for positive `m` of at most 53 bits. -/
def shortest (m : Nat) (q : Int) (leastOfBinade : Bool) : Decimal :=
  let (num, den) := ratio 1 q
  let (lo, hi) := halfway m leastOfBinade
  -- Every number of the interval is below `10^e`, for this first `e`.
  let top : Int := ((Nat.log2 (m + 1) + 1 : Int) + q) * 30103 / 100000 + 2
  firstGrid (lo * num) (4 * m * num) (hi * num) (4 * den) (m % 2 == 0) 30 top

/-- The decimal without trailing zeros. -/
def trim : Nat → Decimal → Decimal
  | 0, d => d
  | n + 1, d =>
    if d.digits % 10 = 0 && d.digits != 0 then trim n ⟨d.digits / 10, d.exponent + 1⟩ else d

/-- The digits without an exponent: a point where the fraction starts, and no point without a
fraction. -/
def render (d : Decimal) : String :=
  let ds := (Nat.repr d.digits).toList
  if 0 ≤ d.exponent then String.ofList (ds ++ List.replicate d.exponent.toNat '0')
  else
    let places := (-d.exponent).toNat
    let ds := List.replicate (places + 1 - ds.length) '0' ++ ds
    String.ofList (ds.take (ds.length - places) ++ '.' :: ds.drop (ds.length - places))

/-- The shortest text that reads back as `x`, without an exponent; a whole number has no point. -/
def positional (x : Float) : String :=
  if x.isNaN then "NaN"
  else
    let bits := x.toBits.toNat
    let sign := if bits >>> 63 = 1 then "-" else ""
    let biased : Nat := (bits >>> 52) % 2048
    let fraction : Nat := bits % (1 <<< 52)
    sign ++
      if biased = 2047 then "inf"
      else if biased = 0 && fraction = 0 then "0"
      else if biased = 0 then (trim 400 (shortest fraction (-1074) false)).render
      else (trim 400 (shortest ((1 <<< 52) + fraction) ((biased : Int) - 1075)
        (fraction == 0 && biased != 1))).render

end Decimal

end Wiring
