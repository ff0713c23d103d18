import BondMarket.Decimal.Parser
import BondMarket.Decimal.Printer
import Mathlib.Algebra.Order.Field.Rat
import Mathlib.Tactic.NormNum
import Mathlib.Tactic.Positivity
import Mathlib.Tactic.Ring

/-!
Decimals in writing. A numeral is a minus sign that may be missing and decimal digits with a point
that may be missing, at least one digit in all and at most eighteen behind the point. It writes the
number of its digits, read one after the other, over the power of ten of those behind the point.

Reading is the exact inverse of this, up to one slip. An empty side of the point counts as zero, and
the check that there is something behind the sign is made before the point is looked for; so a point
without any digit is read as zero.

What is written of a decimal is a numeral with all eighteen places, and is read back.
-/

namespace BondMarket

namespace Text

/-! ### Digits of ASCII -/

def isAscii (s : String) : Bool := s.toList.all (·.toNat < 0x80)

theorem isDigit_digitChar {n : Nat} (h : n < 10) : (digitChar n).isDigit := by
  match n, h with
  | 0, _ | 1, _ | 2, _ | 3, _ | 4, _ | 5, _ | 6, _ | 7, _ | 8, _ | 9, _ => decide

theorem digitValue?_of_isDigit {c : Char} (h : c.isDigit) :
    digitValue? c = some (c.toNat - '0'.toNat) := by
  obtain ⟨hlow, hhigh⟩ : 0x30 ≤ c.toNat ∧ c.toNat ≤ 0x39 := Char.isDigit_iff_toNat.1 h
  have hchar : digitChar (c.toNat - 0x30) = c := by
    rw [digitChar, Nat.add_sub_cancel' hlow, Char.ofNat_toNat]
  have hvalue := digitValue?_digitChar (by omega : c.toNat - 0x30 < 10)
  rw [hchar] at hvalue
  exact hvalue

theorem isDigit_iff {c : Char} (hc : c.toNat < 0x80) : isDigit c ↔ c.isDigit := by
  constructor
  · intro h
    rw [isDigit, Bool.or_eq_true] at h
    rcases h with h | h
    · rw [digitValue?, Option.isSome_map, List.find?_isSome] at h
      obtain ⟨z, hz, h⟩ := h
      have hzero : ∀ z ∈ digitZeros, z = 0x30 ∨ 0x80 ≤ z := by decide
      have := hzero z hz
      simp only [Bool.and_eq_true, decide_eq_true_eq] at h
      exact Char.isDigit_iff_toNat.2 (show 0x30 ≤ c.toNat ∧ c.toNat ≤ 0x39 by omega)
    · obtain ⟨range, hrange, h⟩ := List.any_eq_true.1 h
      have hfirst : ∀ range ∈ loneDigitRanges, 0x80 ≤ range.1 := by decide
      have := hfirst range hrange
      simp only [Bool.and_eq_true, decide_eq_true_eq] at h
      omega
  · intro h
    simp [isDigit, digitValue?_of_isDigit h]

theorem readDigitsFrom_eq_some {cs : List Char} (h : ∀ c ∈ cs, c.isDigit) (n : Nat) :
    readDigitsFrom n cs = some (Nat.ofDigitChars 10 cs n) := by
  induction cs generalizing n with
  | nil => rfl
  | cons c r ih =>
      rw [readDigitsFrom, digitValue?_of_isDigit (h c List.mem_cons_self), Option.bind_some,
        ih fun x hx => h x (List.mem_cons_of_mem _ hx), Nat.ofDigitChars_cons]

theorem readDigits_eq_some {cs : List Char} (h : ∀ c ∈ cs, c.isDigit) :
    readDigits cs = some (Nat.ofDigitChars 10 cs 0) := readDigitsFrom_eq_some h 0

theorem isDigit_of_mem_lastDigits {k n : Nat} {c : Char} (h : c ∈ lastDigits k n) : c.isDigit := by
  induction k generalizing n with
  | zero => simp [lastDigits] at h
  | succ k ih =>
      rw [lastDigits, List.mem_append, List.mem_singleton] at h
      rcases h with h | rfl
      · exact ih h
      · exact isDigit_digitChar (Nat.mod_lt n (by decide))

theorem ofDigitChars_lastDigits (k n : Nat) :
    Nat.ofDigitChars 10 (lastDigits k n) 0 = n % 10 ^ k := by
  have h := readDigits_lastDigits k n
  rw [readDigits_eq_some fun c hc => isDigit_of_mem_lastDigits hc] at h
  exact Option.some.inj h

theorem ofDigitChars_append_zero (a b : List Char) :
    Nat.ofDigitChars 10 (a ++ b) 0 =
      Nat.ofDigitChars 10 a 0 * 10 ^ b.length + Nat.ofDigitChars 10 b 0 := by
  rw [Nat.ofDigitChars_append, Nat.ofDigitChars_eq_ofDigitChars_zero, Nat.mul_comm]

end Text

namespace Dec

/-! ### Numerals -/

/-- A decimal numeral. -/
structure Numeral where
  negative : Bool
  /-- The digits before the point. -/
  whole : List Char
  point : Bool
  /-- The digits behind the point. -/
  decimals : List Char
  isDigit : ∀ c ∈ whole ++ decimals, c.isDigit
  ne_nil : whole ++ decimals ≠ []
  length_le : decimals.length ≤ 18
  point_of_decimals : decimals ≠ [] → point

namespace Numeral

def body (n : Numeral) : List Char := n.whole ++ if n.point then '.' :: n.decimals else []

def chars (n : Numeral) : List Char := if n.negative then '-' :: n.body else n.body

def value (n : Numeral) : ℚ :=
  (if n.negative then -1 else 1) *
    (Nat.ofDigitChars 10 (n.whole ++ n.decimals) 0 / 10 ^ n.decimals.length)

/-- The magnitude in units of the eighteenth place. -/
def units (n : Numeral) : Nat :=
  Nat.ofDigitChars 10 (n.whole ++ n.decimals) 0 * 10 ^ (18 - n.decimals.length)

def raw (n : Numeral) : Int := if n.negative then -n.units else n.units

variable (n : Numeral)

theorem raw_cast : (n.raw : ℚ) = n.value * 10 ^ 18 := by
  have hpow : (10 : ℚ) ^ 18 = 10 ^ n.decimals.length * 10 ^ (18 - n.decimals.length) := by
    rw [← pow_add, Nat.add_sub_cancel' n.length_le]
  have hunits : (n.units : ℚ) =
      Nat.ofDigitChars 10 (n.whole ++ n.decimals) 0 / 10 ^ n.decimals.length * 10 ^ 18 := by
    rw [units, hpow, Nat.cast_mul, Nat.cast_pow, ← mul_assoc,
      div_mul_cancel₀ _ (by positivity)]
    norm_num
  rw [value, mul_assoc, ← hunits, raw]
  split <;> simp

theorem isDigit_or_point_of_mem_body {c : Char} (h : c ∈ n.body) : c.isDigit ∨ c = '.' := by
  rw [body, List.mem_append] at h
  rcases h with h | h
  · exact .inl (n.isDigit c (List.mem_append_left _ h))
  · split at h
    · rcases List.mem_cons.1 h with rfl | h
      · exact .inr rfl
      · exact .inl (n.isDigit c (List.mem_append_right _ h))
    · cases h

theorem toNat_of_mem_chars {c : Char} (h : c ∈ n.chars) : 0x2D ≤ c.toNat ∧ c.toNat ≤ 0x39 := by
  have hbody : c ∈ n.body → 0x2D ≤ c.toNat ∧ c.toNat ≤ 0x39 := fun hc => by
    rcases n.isDigit_or_point_of_mem_body hc with hc | rfl
    · have : 0x30 ≤ c.toNat ∧ c.toNat ≤ 0x39 := Char.isDigit_iff_toNat.1 hc
      omega
    · decide
  rw [chars] at h
  split at h
  · rcases List.mem_cons.1 h with rfl | h
    · decide
    · exact hbody h
  · exact hbody h

theorem trim_chars : Text.trimBoth Text.isBlank n.chars = n.chars :=
  Text.trimBoth_isBlank_eq_self fun c hc => by
    have := n.toNat_of_mem_chars hc
    omega

theorem body_ne_nil : n.body ≠ [] := by
  intro h
  obtain ⟨hwhole, hpoint⟩ := List.append_eq_nil_iff.1 h
  have hdecimals : n.decimals ≠ [] := fun hnil => n.ne_nil (by rw [hwhole, hnil, List.append_nil])
  simp [n.point_of_decimals hdecimals] at hpoint

theorem splitPoint_body : splitPoint n.body = (n.whole, n.decimals) := by
  have hdigits : ∀ c ∈ n.whole, (decide (c ≠ '.')) = true := fun c hc => by
    have hc := n.isDigit c (List.mem_append_left _ hc)
    rw [decide_eq_true_eq]
    rintro rfl
    exact absurd hc (by decide)
  rw [splitPoint, body, List.takeWhile_append_of_pos hdigits, List.dropWhile_append_of_pos hdigits]
  cases hpoint : n.point with
  | true => simp
  | false =>
      have hnil : n.decimals = [] := by
        by_contra hne
        exact absurd (n.point_of_decimals hne) (by simp [hpoint])
      simp [hnil]

theorem splitSign_chars : splitSign n.chars = (n.negative, n.body) := by
  have hhead : ∀ r, n.body ≠ '-' :: r := fun r hr =>
    absurd (n.isDigit_or_point_of_mem_body (hr ▸ List.mem_cons_self)) (by decide)
  cases hneg : n.negative with
  | true => rw [chars, hneg, if_pos rfl, splitSign]
  | false =>
      rw [chars, hneg, if_neg Bool.false_ne_true]
      unfold splitSign
      split
      · rename_i r hr
        exact absurd hr (hhead r)
      · rfl

end Numeral

/-! ### Reading -/

theorem digitsValue_eq_ok {cs : List Char} (h : ∀ c ∈ cs, c.isDigit) :
    digitsValue cs = .ok (Nat.ofDigitChars 10 cs 0) := by
  rw [digitsValue, Text.readDigits_eq_some h]

theorem digitsValue_ok_or_error (cs : List Char) :
    (∃ n, digitsValue cs = .ok n) ∨ digitsValue cs = Fault.digitWithoutValue.fail := by
  unfold digitsValue
  split
  · exact .inl ⟨_, rfl⟩
  · exact .inr rfl

/-- What is read of a text whose sign is followed by something. An empty side of the point needs no
case of its own, as no digits write zero. -/
theorem parse_eq_of_split {s : String} {negative : Bool} {body before frac : List Char}
    (hsign : splitSign (Text.trim s) = (negative, body)) (hbody : body ≠ [])
    (hpoint : splitPoint body = (before, frac)) :
    parse s =
      if (before ++ frac).all Text.isDigit then
        if 18 < frac.length then (Fault.tooManyPlaces s).fail
        else do
          let units ← digitsValue before
          let parts ← digitsValue (frac ++ List.replicate (18 - frac.length) '0')
          let magnitude : Int := units * scale + parts
          return ⟨if negative then -magnitude else magnitude⟩
      else (Fault.malformedDecimal s).fail := by
  have hzero {β : Type} (f : List Char → β) (h : f ['0'] = f []) :
      f (if before = [] then ['0'] else before) = f before := by
    split
    · rename_i hnil
      rw [hnil, h]
    · rfl
  have hdigits : (before ++ frac).all Text.isDigit ↔
      ¬((!before.all Text.isDigit || !frac.all Text.isDigit) = true) := by
    simp
  unfold parse
  split
  · rename_i h
    rw [h] at hsign
    cases hsign
    exact absurd rfl hbody
  · simp only [hsign, hpoint, if_neg hbody, hdigits, ite_not, hzero (List.all · Text.isDigit) rfl,
      hzero digitsValue rfl]
    rfl

theorem parse_of_trim_eq_chars {s : String} {n : Numeral} (h : Text.trim s = n.chars) :
    parse s = .ok ⟨n.raw⟩ := by
  have hdigits : (n.whole ++ n.decimals).all Text.isDigit := List.all_eq_true.2 fun c hc => by
    simp [Text.isDigit, Text.digitValue?_of_isDigit (n.isDigit c hc)]
  have hpadded : ∀ c ∈ n.decimals ++ List.replicate (18 - n.decimals.length) '0', c.isDigit := by
    intro c hc
    rcases List.mem_append.1 hc with hc | hc
    · exact n.isDigit c (List.mem_append_right _ hc)
    · rw [List.eq_of_mem_replicate hc]
      decide
  have hunits : (n.units : Int) = Nat.ofDigitChars 10 n.whole 0 * scale +
      Nat.ofDigitChars 10 (n.decimals ++ List.replicate (18 - n.decimals.length) '0') 0 := by
    have hscale :
        scale = ((10 ^ n.decimals.length * 10 ^ (18 - n.decimals.length) : Nat) : Int) := by
      rw [← pow_add, Nat.add_sub_cancel' n.length_le]
      rfl
    rw [Numeral.units, Text.ofDigitChars_append_zero, Nat.ofDigitChars_append,
      Nat.ofDigitChars_replicate_zero, hscale]
    push_cast
    ring
  rw [parse_eq_of_split (by rw [h, n.splitSign_chars]) n.body_ne_nil n.splitPoint_body,
    if_pos hdigits, if_neg n.length_le.not_gt,
    digitsValue_eq_ok fun c hc => n.isDigit c (List.mem_append_left _ hc),
    digitsValue_eq_ok hpadded, Numeral.raw, hunits]
  rfl

theorem parse_error_of_split {s : String} {negative : Bool}
    (hsign : splitSign (Text.trim s) = (negative, [])) :
    ∃ f : Fault, parse s = .error (.fault f) ∧ f.kind = .value := by
  unfold parse
  split
  · exact ⟨_, rfl, rfl⟩
  · simp only [hsign, if_true]
    exact ⟨_, rfl, rfl⟩

/-- Reading fails with no fault but one about a value. -/
theorem parse_ok_or_error (s : String) :
    (∃ d, parse s = .ok d) ∨ ∃ f : Fault, parse s = .error (.fault f) ∧ f.kind = .value := by
  rcases hsign : splitSign (Text.trim s) with ⟨negative, body⟩
  rcases eq_or_ne body [] with rfl | hbody
  · exact .inr (parse_error_of_split hsign)
  rcases hpoint : splitPoint body with ⟨before, frac⟩
  rw [parse_eq_of_split hsign hbody hpoint]
  split
  · split
    · exact .inr ⟨_, rfl, rfl⟩
    · obtain ⟨units, hunits⟩ | hunits := digitsValue_ok_or_error before
      · obtain ⟨parts, hparts⟩ | hparts :=
          digitsValue_ok_or_error (frac ++ List.replicate (18 - frac.length) '0')
        · rw [hunits, hparts]
          exact .inl ⟨_, rfl⟩
        · rw [hunits, hparts]
          exact .inr ⟨_, rfl, rfl⟩
      · rw [hunits]
        exact .inr ⟨_, rfl, rfl⟩
  · exact .inr ⟨_, rfl, rfl⟩

theorem eq_of_splitSign {cs body : List Char} {negative : Bool}
    (h : splitSign cs = (negative, body)) : cs = if negative then '-' :: body else body := by
  unfold splitSign at h
  split at h <;> cases h <;> rfl

theorem eq_of_splitPoint {cs before frac : List Char} (h : splitPoint cs = (before, frac)) :
    ∃ point : Bool, (frac ≠ [] → point) ∧ cs = before ++ if point then '.' :: frac else [] := by
  cases h
  have hrest : cs.dropWhile (· ≠ '.') =
      if '.' ∈ cs then '.' :: (cs.dropWhile (· ≠ '.')).drop 1 else [] := by
    induction cs with
    | nil => rfl
    | cons c r ih =>
        by_cases hc : c = '.'
        · simp [hc]
        · simpa [hc, Ne.symm hc] using ih
  refine ⟨decide ('.' ∈ cs), fun hne => ?_, ?_⟩
  · by_contra hnone
    rw [if_neg (by simpa using hnone)] at hrest
    exact hne (by rw [hrest]; rfl)
  · simp only [decide_eq_true_eq]
    rw [← hrest, List.takeWhile_append_dropWhile]

theorem mem_of_splitPoint {cs before frac : List Char} (h : splitPoint cs = (before, frac))
    {c : Char} (hc : c ∈ before ++ frac) : c ∈ cs := by
  cases h
  rcases List.mem_append.1 hc with hc | hc
  · exact (List.takeWhile_sublist _).subset hc
  · exact (List.dropWhile_sublist _).subset ((List.drop_sublist _ _).subset hc)

/-- What is accepted is a numeral, or the point alone with no digit around it. -/
theorem exists_numeral_of_parse {s : String} (hs : Text.isAscii s) {d : Dec}
    (h : parse s = .ok d) :
    (∃ n : Numeral, Text.trim s = n.chars) ∨ Text.trim s = ['.'] ∨ Text.trim s = ['-', '.'] := by
  rcases hsign : splitSign (Text.trim s) with ⟨negative, body⟩
  have htrim := eq_of_splitSign hsign
  rcases eq_or_ne body [] with rfl | hbody
  · obtain ⟨f, hf, -⟩ := parse_error_of_split hsign
    cases h.symm.trans hf
  rcases hpoint : splitPoint body with ⟨before, frac⟩
  obtain ⟨point, hfrac, hsplit⟩ := eq_of_splitPoint hpoint
  rw [parse_eq_of_split hsign hbody hpoint] at h
  split at h
  · rename_i hdigits
    split at h
    · cases h
    · rename_i hlength
      -- Something follows the sign, so that without digits it is the point.
      rcases eq_or_ne (before ++ frac) [] with hnil | hne
      · obtain ⟨rfl, rfl⟩ := List.append_eq_nil_iff.1 hnil
        have hlone : body = ['.'] := by
          cases point with
          | true => exact hsplit
          | false => exact absurd hsplit hbody
        rw [htrim, hlone]
        cases negative with
        | true => exact .inr (.inr rfl)
        | false => exact .inr (.inl rfl)
      · have hascii : ∀ c ∈ before ++ frac, c.toNat < 0x80 := fun c hc => by
          have hmem : c ∈ Text.trim s := by
            rw [htrim]
            have := mem_of_splitPoint hpoint hc
            split
            · exact List.mem_cons_of_mem _ this
            · exact this
          exact of_decide_eq_true (List.all_eq_true.1 hs c (Text.mem_of_mem_trimBoth hmem))
        let n : Numeral := {
          negative, whole := before, point, decimals := frac
          isDigit := fun c hc =>
            (Text.isDigit_iff (hascii c hc)).1 (List.all_eq_true.1 hdigits c hc)
          ne_nil := hne, length_le := not_lt.1 hlength, point_of_decimals := hfrac }
        have hchars : n.chars = if negative then '-' :: body else body := by
          rw [Numeral.chars, Numeral.body, ← hsplit]
        exact .inl ⟨n, by rw [htrim, hchars]⟩
  · cases h

theorem parse_of_lonePoint {s : String} (h : Text.trim s = ['.'] ∨ Text.trim s = ['-', '.']) :
    parse s = .ok zero := by
  have hread {negative : Bool} (hsign : splitSign (Text.trim s) = (negative, ['.'])) :
      parse s = .ok zero := by
    rw [parse_eq_of_split hsign (by decide) (by rfl : splitPoint ['.'] = ([], []))]
    cases negative <;> rfl
  rcases h with h | h
  · exact hread (by rw [h]; rfl)
  · exact hread (by rw [h]; rfl)

theorem Numeral.chars_ne_lonePoint (n : Numeral) : n.chars ≠ ['.'] ∧ n.chars ≠ ['-', '.'] := by
  have hbody : n.body ≠ ['.'] := fun h => by
    have hsplit := n.splitPoint_body
    rw [h] at hsplit
    obtain ⟨hwhole, hdecimals⟩ := Prod.mk.inj hsplit
    exact n.ne_nil (by rw [← hwhole, ← hdecimals]; rfl)
  have hsign := n.splitSign_chars
  refine ⟨fun h => ?_, fun h => ?_⟩ <;> rw [h] at hsign <;>
    exact hbody (Prod.mk.inj hsign).2.symm

/-- Numerals are read as exactly the number that they write, and all other texts of ASCII are
refused with a fault about the value, unless what is left between the blanks is a point with no
digit, with or without a sign. -/
theorem parse_numeral_iff {s : String} (hs : Text.isAscii s) :
    ((∀ n : Numeral, Text.trim s = n.chars →
        ∃ d, parse s = .ok d ∧ (d.raw : ℚ) = n.value * 10 ^ 18) ∧
      ((∀ n : Numeral, Text.trim s ≠ n.chars) →
        ∃ f : Fault, parse s = .error (.fault f) ∧ f.kind = .value)) ↔
    Text.trim s ≠ ['.'] ∧ Text.trim s ≠ ['-', '.'] := by
  constructor
  · rintro ⟨-, hrefused⟩
    by_contra hlone
    have hlone : Text.trim s = ['.'] ∨ Text.trim s = ['-', '.'] := by
      rwa [not_and_or, not_not, not_not] at hlone
    obtain ⟨f, hf, -⟩ := hrefused fun n hn => by
      obtain ⟨hpoint, hsigned⟩ := n.chars_ne_lonePoint
      rcases hlone with h | h
      · exact hpoint (hn.symm.trans h)
      · exact hsigned (hn.symm.trans h)
    cases (parse_of_lonePoint hlone).symm.trans hf
  · rintro ⟨hpoint, hsigned⟩
    refine ⟨fun n hn => ⟨_, parse_of_trim_eq_chars hn, n.raw_cast⟩, fun hnone => ?_⟩
    obtain ⟨d, hd⟩ | hf := parse_ok_or_error s
    · obtain ⟨n, hn⟩ | h | h := exists_numeral_of_parse hs hd
      · exact absurd hn (hnone n)
      · exact absurd h hpoint
      · exact absurd h hsigned
    · exact hf

def twelveAndHalf : Numeral where
  negative := true
  whole := ['1', '2']
  point := true
  decimals := ['5']
  isDigit := List.all_eq_true.1 (by decide)
  ne_nil := by decide
  length_le := by decide
  point_of_decimals := fun _ => rfl

/-- The numeral `-12.5` is read between blanks; `1e5` is no numeral and is refused. -/
theorem parse_numeral_twelveAndHalf :
    (Text.isAscii " -12.5\n" ∧ Text.trim " -12.5\n" = twelveAndHalf.chars ∧
      ∃ d, parse " -12.5\n" = .ok d ∧ (d.raw : ℚ) = twelveAndHalf.value * 10 ^ 18) ∧
    Text.isAscii "1e5" ∧ (∀ n : Numeral, Text.trim "1e5" ≠ n.chars) ∧
      ∃ f : Fault, parse "1e5" = .error (.fault f) ∧ f.kind = .value := by
  have hs : Text.isAscii " -12.5\n" := by decide
  have htrim : Text.trim " -12.5\n" = twelveAndHalf.chars := by decide
  have hread := ((parse_numeral_iff hs).2 (by decide)).1 twelveAndHalf htrim
  have hs' : Text.isAscii "1e5" := by decide
  have hnone : ∀ n : Numeral, Text.trim "1e5" ≠ n.chars := fun n hn => by
    have hmem : 'e' ∈ n.chars := hn ▸ (by decide : 'e' ∈ Text.trim "1e5")
    exact absurd (n.toNat_of_mem_chars hmem).2 (by decide)
  exact ⟨⟨hs, htrim, hread⟩, hs', hnone, ((parse_numeral_iff hs').2 (by decide)).2 hnone⟩

/-- A point is no numeral, and neither is a point with a sign. Both are read as zero, although a
sign with nothing behind it is refused. -/
theorem parse_lonePoint :
    Text.isAscii "." ∧ Text.isAscii "-." ∧
      (∀ n : Numeral, Text.trim "." ≠ n.chars ∧ Text.trim "-." ≠ n.chars) ∧
      parse "." = .ok zero ∧ parse "-." = .ok zero ∧
      parse "-" = (Fault.malformedDecimal "-").fail := by
  refine ⟨by decide, by decide, fun n => ⟨?_, ?_⟩, by decide⟩
  · exact n.chars_ne_lonePoint.1.symm
  · exact n.chars_ne_lonePoint.2.symm

/-! ### Writing -/

def numeral (d : Dec) : Numeral where
  negative := d.raw < 0
  whole := Nat.toDigits 10 (d.raw.natAbs / scale.toNat)
  point := true
  decimals := Text.lastDigits 18 (d.raw.natAbs % scale.toNat)
  isDigit c hc := by
    rcases List.mem_append.1 hc with hc | hc
    · exact Nat.isDigit_of_mem_toDigits (by decide) (by decide) hc
    · exact Text.isDigit_of_mem_lastDigits hc
  ne_nil := List.append_ne_nil_of_left_ne_nil Nat.toDigits_ne_nil _
  length_le := (Text.length_lastDigits _ _).le
  point_of_decimals _ := rfl

theorem chars_numeral (d : Dec) : d.numeral.chars = d.chars := by
  simp [Numeral.chars, Numeral.body, numeral, chars, magnitudeChars, places]

theorem units_numeral (d : Dec) : d.numeral.units = d.raw.natAbs := by
  have hwhole : d.numeral.whole = Nat.toDigits 10 (d.raw.natAbs / 10 ^ 18) := rfl
  have hdecimals : d.numeral.decimals = Text.lastDigits 18 (d.raw.natAbs % 10 ^ 18) := rfl
  rw [Numeral.units, hwhole, hdecimals, Text.length_lastDigits, Text.ofDigitChars_append_zero,
    Text.length_lastDigits, Nat.ofDigitChars_ten_toDigits, Text.ofDigitChars_lastDigits,
    Nat.mod_mod, Nat.div_add_mod', Nat.sub_self, pow_zero, Nat.mul_one]

theorem raw_numeral (d : Dec) : d.numeral.raw = d.raw := by
  have hneg : d.numeral.negative = decide (d.raw < 0) := rfl
  rw [Numeral.raw, units_numeral, hneg]
  simp only [decide_eq_true_eq]
  split <;> omega

theorem toList_text (d : Dec) : d.text.toList = d.numeral.chars := by
  rw [chars_numeral, text, String.toList_ofList]

theorem parse_text (d : Dec) : parse d.text = .ok d := by
  have htrim : Text.trim d.text = d.numeral.chars := by
    rw [Text.trim, toList_text, Numeral.trim_chars]
  rw [parse_of_trim_eq_chars htrim, raw_numeral]

/-- Every decimal is read back from its written form, so that no two are written alike; and the
written form is a numeral with a point and eighteen digits behind it. -/
theorem text_readable :
    (∀ d : Dec, parse d.text = .ok d) ∧ Function.Injective text ∧
      ∀ d : Dec, ∃ n : Numeral, d.text.toList = n.chars ∧ n.point ∧ n.decimals.length = 18 := by
  refine ⟨parse_text, fun a b h => ?_, fun d => ?_⟩
  · have hb := parse_text b
    rw [← h, parse_text a] at hb
    exact Except.ok.inj hb
  · exact ⟨d.numeral, d.toList_text, rfl, Text.length_lastDigits _ _⟩

end Dec
end BondMarket
