/-!
# Decimal text of floating-point numbers

A floating-point number is written with the fewest decimal digits that read back as the same
number; of two decimals of that length the nearer one is taken. The digits are found on exact
integers: a number `m · 2^q` stands for every real between the midpoints to its neighbours.
-/

namespace SchemaTypes.Decimal

/-! ## The reals that round to a number -/

/-- The reals that round to a number, as fractions over one denominator. The ends belong to the
interval if `closed`. -/
structure Interval where
  low : Nat
  value : Nat
  high : Nat
  denominator : Nat
  closed : Bool

/-- The least `m` of a number that is not subnormal, `2^52`. -/
def leastNormal : Nat := 4503599627370496

/-- The value of the sign bit, `2^63`. -/
def signBit : Nat := 9223372036854775808

/-- The interval of the positive number `m · 2^q`. Below a power of two the neighbour is nearer. -/
def Interval.of (m : Nat) (q : Int) : Interval :=
  let up := Nat.pow 2 q.toNat
  let below := if m == leastNormal && q != -1074 then 1 else 2
  { low := (4 * m - below) * up
    value := 4 * m * up
    high := (4 * m + 2) * up
    denominator := 4 * Nat.pow 2 (-q).toNat
    closed := m % 2 == 0 }

/-- A decimal without sign: `digits · 10^exponent`. -/
structure Digits where
  digits : Nat
  exponent : Int

/-- Numerator and denominator of a decimal. -/
def Digits.fraction (d : Digits) : Nat × Nat :=
  (d.digits * Nat.pow 10 d.exponent.toNat, Nat.pow 10 (-d.exponent).toNat)

/-- Whether the decimal lies in the interval. -/
def Interval.holds (i : Interval) (d : Digits) : Bool :=
  let (n, k) := d.fraction
  let x := n * i.denominator
  if i.closed then i.low * k ≤ x && x ≤ i.high * k else i.low * k < x && x < i.high * k

/-! ## The shortest decimal -/

/-- The exponent of the leading digit of the fraction `n / d`, looked for from the power of ten
`10^(-fuel)` upwards when the fraction is below one. -/
def leading (n d : Nat) : Int :=
  if d ≤ n then ((Nat.toDigits 10 (n / d)).length : Int) - 1
  else below 400 1 n
where
  /-- How many factors of ten bring the fraction to one. -/
  below : (fuel steps n : Nat) → Int
    | 0, steps, _ => -steps
    | fuel + 1, steps, n => if d ≤ 10 * n then -steps else below fuel (steps + 1) (10 * n)

/-- The decimal of the given exponent that stands for the number: of the two neighbours of the
number on that grid the one that lies in the interval, the nearer one if both do, and the even one
at a tie. -/
def Interval.onGrid? (i : Interval) (exponent : Int) : Option Digits :=
  let n := i.value * Nat.pow 10 (-exponent).toNat
  let d := i.denominator * Nat.pow 10 exponent.toNat
  let below : Digits := ⟨n / d, exponent⟩
  let above : Digits := ⟨n / d + 1, exponent⟩
  match i.holds below, i.holds above with
  | true, false => some below
  | false, true => some above
  | false, false => none
  | true, true =>
    match compare (2 * (n % d)) d with
    | .lt => some below
    | .gt => some above
    | .eq => if n / d % 2 == 0 then some below else some above

/-- The shortest decimal for the positive number `m · 2^q`. Seventeen digits always suffice. -/
def shortest (m : Nat) (q : Int) : Digits :=
  let i := Interval.of m q
  let top := leading i.value i.denominator
  match (List.range 17).findSome? fun (k : Nat) => i.onGrid? (top - k) with
  | some d => d
  | none => ⟨m * Nat.pow 2 q.toNat * Nat.pow 5 (-q).toNat, -(-q).toNat⟩

/-! ## Layout -/

/-- How numbers that are not decimals are written. -/
structure Layout where
  nan : String
  infinity : String

/-- The digits without the zeros at their end, and the exponent that goes with them. -/
def stripZeros : (fuel digits : Nat) → Int → Nat × Int
  | 0, digits, e => (digits, e)
  | fuel + 1, digits, e =>
    if digits != 0 && digits % 10 == 0 then stripZeros fuel (digits / 10) (e + 1) else (digits, e)

/-- A positive decimal as text: positional while the exponent of its leading digit is between -4
and 15, with at least one digit after the point; otherwise with an exponent of at least two
digits. -/
def layOut (d : Digits) : String :=
  let (digits, e) := stripZeros 400 d.digits d.exponent
  let ds := Nat.toDigits 10 digits
  let top := e + ds.length - 1
  if -4 ≤ top && top < 16 then
    if 0 ≤ e then String.ofList (ds ++ List.replicate e.toNat '0') ++ ".0"
    else if 0 ≤ top then
      let point := (top + 1).toNat
      String.ofList (ds.take point) ++ "." ++ String.ofList (ds.drop point)
    else "0." ++ String.ofList (List.replicate (-top - 1).toNat '0' ++ ds)
  else
    let mantissa := match ds with
      | [] => ""
      | [c] => String.ofList [c]
      | c :: rest => String.ofList (c :: '.' :: rest)
    let sign := if top < 0 then "-" else "+"
    let width := Nat.toDigits 10 top.natAbs
    mantissa ++ "e" ++ sign ++ String.ofList (if width.length < 2 then '0' :: width else width)

/-- A floating-point number as text. -/
def text (layout : Layout) (x : Float) : String :=
  let bits := x.toBits.toNat
  let negative : Bool := signBit ≤ bits
  let exponent : Nat := bits / leastNormal % 2048
  let fraction : Nat := bits % leastNormal
  let sign := if negative then "-" else ""
  if exponent == 2047 then
    if fraction != 0 then layout.nan else sign ++ layout.infinity
  else if exponent == 0 && fraction == 0 then sign ++ "0.0"
  else if exponent == 0 then sign ++ layOut (shortest fraction (-1074))
  else sign ++ layOut (shortest (fraction + leastNormal) ((exponent : Int) - 1075))

/-! ## Reading -/

/-- The number nearest to `digits · 10^exponent`. Exponents beyond every number are cut first. -/
def nearest (digits : Nat) (exponent : Int) : Float :=
  let top := exponent + (Nat.toDigits 10 digits).length
  if digits == 0 then 0.0
  else if 400 < top then 1.0 / 0.0
  else if top < -400 then 0.0
  else if 0 ≤ exponent then Float.ofScientific digits false exponent.toNat
  else Float.ofScientific digits true (-exponent).toNat

end SchemaTypes.Decimal
