/-!
Signed decimals with eighteen places. A decimal is an integer, its *raw value*, counted in units
of the last place. Sums and differences are exact. A product of two decimals drops eighteen
places and is rounded to the nearest unit, a half going to the even neighbour; a product with an
integer is exact.

The order is that of the raw values, and the integer parts say in their names which way they
round.
-/

namespace BondMarket

/-- The quotient of two integers rounded to the nearest integer, a half going to the even
neighbour. The sign is settled apart from the magnitude, so the rounding is the same on both
sides of zero. Nothing is meant by a zero divisor. -/
def roundHalfEven (num den : Int) : Int :=
  let quo := num.natAbs / den.natAbs
  let twice := 2 * (num.natAbs % den.natAbs)
  let nearest := if den.natAbs < twice ∨ (twice = den.natAbs ∧ quo % 2 = 1) then quo + 1 else quo
  if decide (num < 0) = decide (den < 0) then nearest else -nearest

def ceilDiv (num den : Int) : Int := -(-num / den)

/-- A decimal, as a number of units of the eighteenth place. -/
structure Dec where
  raw : Int
deriving DecidableEq, Inhabited, Repr

namespace Dec

def places : Nat := 18

def scale : Int := 1000000000000000000

theorem scale_pos : 0 < scale := by decide

def ofInt (n : Int) : Dec := ⟨n * scale⟩

def zero : Dec := ⟨0⟩

def one : Dec := ⟨scale⟩

def hundred : Dec := ofInt 100

instance : Add Dec := ⟨fun a b => ⟨a.raw + b.raw⟩⟩
instance : Sub Dec := ⟨fun a b => ⟨a.raw - b.raw⟩⟩
instance : Neg Dec := ⟨fun a => ⟨-a.raw⟩⟩
instance : Mul Dec := ⟨fun a b => ⟨roundHalfEven (a.raw * b.raw) scale⟩⟩
instance : LT Dec := ⟨fun a b => a.raw < b.raw⟩
instance : LE Dec := ⟨fun a b => a.raw ≤ b.raw⟩

instance (a b : Dec) : Decidable (a < b) := inferInstanceAs (Decidable (a.raw < b.raw))
instance (a b : Dec) : Decidable (a ≤ b) := inferInstanceAs (Decidable (a.raw ≤ b.raw))

def times (d : Dec) (n : Int) : Dec := ⟨d.raw * n⟩

def abs (d : Dec) : Dec := ⟨d.raw.natAbs⟩

def clamped (d : Dec) : Dec := if zero < d then d else zero

def isZero (d : Dec) : Bool := d.raw == 0

def isNegative (d : Dec) : Bool := d.raw < 0

def isPositive (d : Dec) : Bool := 0 < d.raw

def isInteger (d : Dec) : Bool := d.raw % scale == 0

def floorInt (d : Dec) : Int := d.raw / scale

def ceilInt (d : Dec) : Int := ceilDiv d.raw scale

/-- The integer part, toward zero. -/
def truncInt (d : Dec) : Int := d.raw.tdiv scale

/-- The nearest integer, a half going to the even neighbour. -/
def roundInt (d : Dec) : Int := roundHalfEven d.raw scale

def floor (d : Dec) : Dec := ofInt d.floorInt

def ceil (d : Dec) : Dec := ofInt d.ceilInt

/-- Squares and multiplies from the lowest bit of the exponent, rounding every product. The fuel
is at least the number of bits left. -/
def powerLoop : Nat → Dec → Dec → Nat → Dec
  | 0, acc, _, _ => acc
  | fuel + 1, acc, base, n =>
    if n = 0 then acc
    else powerLoop fuel (if n % 2 = 1 then acc * base else acc) (base * base) (n / 2)

def power (d : Dec) (n : Nat) : Dec := powerLoop n one d n

@[ext] theorem ext {a b : Dec} (h : a.raw = b.raw) : a = b := by
  cases a; cases b; cases h; rfl

@[simp] theorem raw_add (a b : Dec) : (a + b).raw = a.raw + b.raw := rfl
@[simp] theorem raw_sub (a b : Dec) : (a - b).raw = a.raw - b.raw := rfl
@[simp] theorem raw_neg (a : Dec) : (-a).raw = -a.raw := rfl
@[simp] theorem raw_ofInt (n : Int) : (ofInt n).raw = n * scale := rfl
@[simp] theorem raw_times (d : Dec) (n : Int) : (d.times n).raw = d.raw * n := rfl
@[simp] theorem raw_zero : zero.raw = 0 := rfl
@[simp] theorem raw_one : one.raw = scale := rfl

theorem raw_mul (a b : Dec) : (a * b).raw = roundHalfEven (a.raw * b.raw) scale := rfl

theorem lt_iff {a b : Dec} : a < b ↔ a.raw < b.raw := Iff.rfl

theorem le_iff {a b : Dec} : a ≤ b ↔ a.raw ≤ b.raw := Iff.rfl

end Dec
end BondMarket
