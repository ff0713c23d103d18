import BondMarket.Error

/-!
Quotients and powers that may fail. A quotient of decimals takes eighteen places into the
dividend first and is rounded to the nearest unit, a half going to the even neighbour; a quotient
by an integer is rounded from the raw value itself.
-/

namespace BondMarket.Dec

def div (a b : Dec) : Result Dec :=
  if b.raw = 0 then Fault.divisionByZero.fail else .ok ⟨roundHalfEven (a.raw * scale) b.raw⟩

def divInt (d : Dec) (n : Int) : Result Dec :=
  if n = 0 then Fault.divisionByZero.fail else .ok ⟨roundHalfEven d.raw n⟩

def ofRatio (num den : Int) : Result Dec :=
  if den = 0 then Fault.divisionByZero.fail else .ok ⟨roundHalfEven (num * scale) den⟩

/-- A power whose exponent is not yet known to be a natural number. -/
def powerInt (d : Dec) (n : Int) : Result Dec :=
  if n < 0 then (Fault.badExponent (toString n)).fail else .ok (d.power n.toNat)

theorem div_of_ne_zero {a b : Dec} (h : b.raw ≠ 0) :
    a.div b = .ok ⟨roundHalfEven (a.raw * scale) b.raw⟩ := by simp [div, h]

theorem divInt_of_ne_zero {d : Dec} {n : Int} (h : n ≠ 0) :
    d.divInt n = .ok ⟨roundHalfEven d.raw n⟩ := by simp [divInt, h]

theorem powerInt_natCast (d : Dec) (n : Nat) : d.powerInt n = .ok (d.power n) := by
  simp [powerInt, Int.not_lt.2 (Int.natCast_nonneg n)]

end BondMarket.Dec
