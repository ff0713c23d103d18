/-!
Decimal digits of every script. They come in runs of ten consecutive code points, from a zero to
a nine, so the table of their zeros gives each its value. A further class of characters counts
as digits without having a place in decimal notation: superscripts, subscripts, circled and
parenthesised digits, and the digits of scripts that write numbers otherwise. Both tables are
those of version 14 of the character database.
-/

namespace BondMarket.Text

/-- The zeros of the runs of decimal digits. -/
def digitZeros : List Nat := [
  0x0030, 0x0660, 0x06F0, 0x07C0, 0x0966, 0x09E6, 0x0A66, 0x0AE6, 0x0B66, 0x0BE6, 0x0C66,
  0x0CE6, 0x0D66, 0x0DE6, 0x0E50, 0x0ED0, 0x0F20, 0x1040, 0x1090, 0x17E0, 0x1810, 0x1946,
  0x19D0, 0x1A80, 0x1A90, 0x1B50, 0x1BB0, 0x1C40, 0x1C50, 0xA620, 0xA8D0, 0xA900, 0xA9D0,
  0xA9F0, 0xAA50, 0xABF0, 0xFF10, 0x104A0, 0x10D30, 0x11066, 0x110F0, 0x11136, 0x111D0,
  0x112F0, 0x11450, 0x114D0, 0x11650, 0x116C0, 0x11730, 0x118E0, 0x11950, 0x11C50, 0x11D50,
  0x11DA0, 0x16A60, 0x16AC0, 0x16B50, 0x1D7CE, 0x1D7D8, 0x1D7E2, 0x1D7EC, 0x1D7F6, 0x1E140,
  0x1E2F0, 0x1E950, 0x1FBF0]

/-- Digits that stand outside decimal notation, as closed intervals of code points. -/
def loneDigitRanges : List (Nat × Nat) := [
  (0x00B2, 0x00B3), (0x00B9, 0x00B9), (0x1369, 0x1371), (0x19DA, 0x19DA), (0x2070, 0x2070),
  (0x2074, 0x2079), (0x2080, 0x2089), (0x2460, 0x2468), (0x2474, 0x247C), (0x2488, 0x2490),
  (0x24EA, 0x24EA), (0x24F5, 0x24FD), (0x24FF, 0x24FF), (0x2776, 0x277E), (0x2780, 0x2788),
  (0x278A, 0x2792), (0x10A40, 0x10A43), (0x10E60, 0x10E68), (0x11052, 0x1105A),
  (0x1F100, 0x1F10A)]

def digitValue? (c : Char) : Option Nat :=
  (digitZeros.find? fun z => z ≤ c.toNat && c.toNat < z + 10).map (c.toNat - ·)

/-- A digit, whether or not it has a place in decimal notation. -/
def isDigit (c : Char) : Bool :=
  (digitValue? c).isSome ||
    loneDigitRanges.any fun (first, last) => first ≤ c.toNat && c.toNat ≤ last

/-- The number that decimal digits write, most significant first, after a number already read;
nothing if one of the characters is no decimal digit. -/
def readDigitsFrom (n : Nat) : List Char → Option Nat
  | [] => some n
  | c :: r => (digitValue? c).bind fun d => readDigitsFrom (10 * n + d) r

def readDigits (cs : List Char) : Option Nat := readDigitsFrom 0 cs

def digitChar (n : Nat) : Char := Char.ofNat (0x30 + n)

def lastDigits : Nat → Nat → List Char
  | 0, _ => []
  | k + 1, n => lastDigits k (n / 10) ++ [digitChar (n % 10)]

theorem digitValue?_digitChar {n : Nat} (h : n < 10) : digitValue? (digitChar n) = some n := by
  match n, h with
  | 0, _ | 1, _ | 2, _ | 3, _ | 4, _ | 5, _ | 6, _ | 7, _ | 8, _ | 9, _ => decide

theorem length_lastDigits (k n : Nat) : (lastDigits k n).length = k := by
  induction k generalizing n with
  | zero => rfl
  | succ k ih => simp [lastDigits, ih]

theorem readDigitsFrom_append (n : Nat) (a b : List Char) :
    readDigitsFrom n (a ++ b) = (readDigitsFrom n a).bind fun m => readDigitsFrom m b := by
  induction a generalizing n with
  | nil => rfl
  | cons c r ih => cases h : digitValue? c <;> simp [readDigitsFrom, h, ih]

theorem readDigits_lastDigits (k n : Nat) :
    readDigits (lastDigits k n) = some (n % Nat.pow 10 k) := by
  induction k generalizing n with
  | zero => simp [lastDigits, readDigits, readDigitsFrom, Nat.mod_one]
  | succ k ih =>
    simp only [readDigits] at ih ⊢
    rw [lastDigits, readDigitsFrom_append, ih]
    have hd := digitValue?_digitChar (Nat.mod_lt n (by decide : 10 > 0))
    have hpow : Nat.pow 10 (k + 1) = 10 * Nat.pow 10 k := Nat.mul_comm _ _
    simp only [Option.bind_some, readDigitsFrom, hd]
    rw [hpow, Nat.mod_mul, Nat.add_comm]

end BondMarket.Text
