import Darkroom.Decimal.Binary

/-!
# The shortest decimal that reads back

Among the decimals that round to a given double, those with the fewest digits are the short ones,
and the nearest of them is its text. The search tries grids of one digit, two digits and so on, and
on each grid the two neighbours of the value.
-/

namespace Darkroom.Decimal

/-- The decimal `d` lies among the reals that round to `x`: between the points halfway to the
neighbours of `x`, which belong to `x` exactly when its significand is even. -/
def Binary.readsBack (x : Binary) (d : Scaled) : Bool :=
  let low := if x.narrowBelow then 4 * x.m - 1 else 4 * x.m - 2
  let high := 4 * x.m + 2
  let even := x.m % 2 == 0
  let fromLow := compareScaled d.digits d.exp low (x.q - 2)
  let fromHigh := compareScaled d.digits d.exp high (x.q - 2)
  (fromLow == .gt || (even && fromLow == .eq)) && (fromHigh == .lt || (even && fromHigh == .eq))

def Binary.floorOn (x : Binary) (e : Int) : Nat :=
  ((x.m <<< x.q.toNat) * Nat.pow 10 (-e).toNat) / (Nat.pow 10 e.toNat <<< (-x.q).toNat)

/-- The least `k` with `x < 10 ^ k`, for `x` above zero: an estimate from the binary logarithm that
is never too large, raised while a power of ten is still not above `x`. -/
def Binary.scale (x : Binary) : Int :=
  let estimate := ((x.m.log2 : Int) + x.q) * 30103 / 100000 - 1
  let tooSmall := (List.range 4).takeWhile fun (i : Nat) =>
    compareScaled 1 (estimate + i) x.m x.q != .gt
  estimate + tooSmall.length

/-- The candidate of one grid: of the two neighbours of `x` on the multiples of `10 ^ e` the one
that reads back, and of two such the nearer one. -/
def Binary.onGrid? (tie : Tie) (x : Binary) (e : Int) : Option Scaled :=
  let below : Scaled := ⟨x.floorOn e, e⟩
  let above : Scaled := ⟨x.floorOn e + 1, e⟩
  match x.readsBack below, x.readsBack above with
  | false, false => none
  | true, false => some below
  | false, true => some above
  | true, true =>
    match compareScaled (below.digits + above.digits) e x.m (x.q + 1), tie with
    | .gt, _ => some below
    | .lt, _ => some above
    | .eq, .awayFromZero => some above
    | .eq, .toEven => some (if below.digits % 2 = 0 then below else above)

/-- Moves the zeros at the end of the digits into the exponent, which does not change the value. -/
def Scaled.strip (d : Scaled) : Scaled :=
  if d.digits ≠ 0 ∧ d.digits % 10 = 0 then Scaled.strip ⟨d.digits / 10, d.exp + 1⟩ else d
termination_by d.digits
decreasing_by omega

/-- The exact value of `x` as a decimal. A negative power of two is a power of five over one of
ten. -/
def Binary.exact (x : Binary) : Scaled :=
  if x.q < 0 then ⟨x.m * Nat.pow 5 (-x.q).toNat, x.q⟩ else ⟨x.m <<< x.q.toNat, 0⟩

/-- The shortest decimal that reads back as `x`, without zeros at its end. Seventeen digits always
suffice; should none of these grids hold a candidate, the exact value is taken. -/
def Binary.shortest (tie : Tie) (x : Binary) : Scaled :=
  if x.m = 0 then ⟨0, 0⟩
  else
    let k := x.scale
    let candidate := (List.range 17).findSome? fun (n : Nat) => x.onGrid? tie (k - 1 - n)
    (candidate.getD x.exact).strip

end Darkroom.Decimal
