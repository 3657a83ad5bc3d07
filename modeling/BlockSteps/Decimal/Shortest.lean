import BlockSteps.Decimal.Binary

/-!
# The fewest digits that read back

A double stands for every real number that rounds to it.  Its shortest decimal form is the
decimal with the fewest digits among those, and of several with that many digits the one nearest
to the double.  `shortest` finds it by exact arithmetic on natural numbers: for one power of ten
after the other, the largest first, it looks at the two multiples next to the number and stops
when one of them lies in the interval of the reals that round to the double.

**Why only two multiples.**  If any multiple of a power of ten lies in the interval, so does one
of the two neighbours of the number itself, because the interval contains the number.

**What is left to the caller.**  Two neighbours can be equally near.  Which one is then taken is
a convention of the format and not of the search, so it is the argument `tie`.
-/

namespace BlockSteps.Decimal

/-- Which of two equally near decimals is taken. -/
inductive Tie where
  /-- The greater one. -/
  | up
  /-- The one whose last digit is even. -/
  | even
  deriving Repr, DecidableEq

/-- The decimal `coefficient * 10 ^ exponent`. -/
structure Digits where
  /-- The digits, read as one number. -/
  coefficient : Nat
  /-- The power of ten. -/
  exponent : Int
  deriving Repr, DecidableEq

/-! ## One power of ten

For a positive number `m * 2 ^ q` and a power of ten, everything is multiplied by one common
factor that makes it whole: a quarter of the last binary place becomes `quarter`, the power of ten
becomes `unit`. -/

/-- The number `m * 2 ^ q` and one power of ten, in a common unit. -/
structure Grid where
  /-- A quarter of the last place of the number. -/
  quarter : Nat
  /-- The power of ten. -/
  unit : Nat

/-- The common unit for the binary exponent `q` and the decimal exponent `k`. -/
def Grid.of (q k : Int) : Grid where
  quarter := Nat.pow 10 (-k).toNat <<< (q - 2).toNat
  unit := Nat.pow 10 k.toNat <<< (2 - q).toNat

/-- Whether the multiple `c` of the power of ten rounds to `m * 2 ^ q`.  The interval reaches half a
place up and half a place down, only a quarter down at a power of two whose lower neighbour is
nearer; its ends belong to it when the coefficient is even. -/
def Grid.reads (g : Grid) (m : Nat) (near : Bool) (c : Nat) : Bool :=
  let low := (4 * m - if near then 1 else 2) * g.quarter
  let high := (4 * m + 2) * g.quarter
  if m % 2 = 0 then decide (low ≤ c * g.unit ∧ c * g.unit ≤ high)
  else decide (low < c * g.unit ∧ c * g.unit < high)

/-- The multiple of the power of ten that reads back as the number and is nearest to it. -/
def Grid.nearest (g : Grid) (tie : Tie) (m : Nat) (near : Bool) : Option Nat :=
  let value := 4 * m * g.quarter
  let below := value / g.unit
  let rest := value % g.unit
  match g.reads m near below, g.reads m near (below + 1) with
  | false, false => none
  | true, false => some below
  | false, true => some (below + 1)
  | true, true =>
    if 2 * rest < g.unit then some below
    else if g.unit < 2 * rest then some (below + 1)
    else match tie with
      | .up => some (below + 1)
      | .even => if below % 2 = 0 then some below else some (below + 1)

/-! ## From coarse to fine -/

/-- The exact decimal form of `m * 2 ^ q`. -/
def exactDigits (m : Nat) (q : Int) : Digits :=
  if 0 ≤ q then ⟨m <<< q.toNat, 0⟩ else ⟨m * Nat.pow 5 (-q).toNat, q⟩

/-- Try at most `steps` powers of ten downward from `10 ^ k`.  If none of them has a multiple in
the interval, the answer is the exact decimal form. -/
def searchDigits (tie : Tie) (m : Nat) (q : Int) (near : Bool) : Nat → Int → Digits
  | 0, _ => exactDigits m q
  | steps + 1, k =>
    match (Grid.of q k).nearest tie m near with
    | some c => ⟨c, k⟩
    | none => searchDigits tie m q near steps (k - 1)

/-- A power of ten above `m * 2 ^ q`: the logarithm of two is a little below `30103 / 100000`. -/
def powerAbove (m : Nat) (q : Int) : Int := (m.log2 + q + 1) * 30103 / 100000 + 1

/-- The shortest digits that read back as the positive double `m * 2 ^ q`.  Seventeen digits are
always enough, and the search begins at most three places above the first of them. -/
def shortest (tie : Tie) (m : Nat) (q : Int) : Digits :=
  let near := m == 1 <<< 52 && decide (-1074 < q)
  searchDigits tie m q near 20 (powerAbove m q)

end BlockSteps.Decimal
