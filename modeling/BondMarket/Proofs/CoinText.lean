import BondMarket.Coins.Parser
import BondMarket.Proofs.Coins

/-!
Coins in writing. A written coin is the digits of its amount and its denomination, with nothing
between, so that it is read back by where the digits end; written coins are joined by commas, so
that they are read back if none of them holds a comma. All this rests on one fact: the characters
of a coin stand between the slash and the small `z`, above the comma and every blank of ASCII.

The reader and the check of denominations disagree on one point. The check overlooks a line feed
at the end of a denomination; the reader, which has cut off the blanks by then, does not.
-/

namespace BondMarket

namespace Denom

theorem toNat_of_isLower {c : Char} (h : isLower c) : 0x61 ≤ c.toNat ∧ c.toNat ≤ 0x7A := by
  simpa [isLower, Char.le_def, UInt32.le_iff_toNat_le] using h

theorem isAsciiDigit_iff {c : Char} : isAsciiDigit c ↔ c.isDigit := by
  simp [isAsciiDigit, Char.isDigit_iff_toNat, Char.le_def, UInt32.le_iff_toNat_le]

theorem toNat_of_isAsciiDigit {c : Char} (h : isAsciiDigit c) :
    0x30 ≤ c.toNat ∧ c.toNat ≤ 0x39 :=
  Char.isDigit_iff_toNat.1 (isAsciiDigit_iff.1 h)

theorem toNat_of_isInner {c : Char} (h : isInner c) : 0x2F ≤ c.toNat ∧ c.toNat ≤ 0x7A := by
  simp only [isInner, Bool.or_eq_true, beq_iff_eq] at h
  rcases h with (h | h) | rfl
  · have := toNat_of_isLower h
    omega
  · have := toNat_of_isAsciiDigit h
    omega
  · decide

/-- The characters of a denomination: a small letter, and no others than inner ones. -/
theorem exists_of_isBody {cs : List Char} (h : isBody cs) :
    ∃ c r, cs = c :: r ∧ isLower c ∧ ∀ x ∈ cs, isInner x := by
  cases cs with
  | nil => cases h
  | cons c r =>
      simp only [isBody, Bool.and_eq_true, List.all_eq_true] at h
      obtain ⟨⟨⟨hc, hr⟩, -⟩, -⟩ := h
      refine ⟨c, r, rfl, hc, fun x hx => ?_⟩
      rcases List.mem_cons.1 hx with rfl | hx
      · simp [isInner, hc]
      · exact hr x hx

theorem dropFinalNewline_eq_self {cs : List Char} (h : cs.getLast? ≠ some '\n') :
    dropFinalNewline cs = cs := by
  unfold dropFinalNewline
  split
  · rename_i r hr
    exact absurd (by rw [← List.head?_reverse, hr]; rfl) h
  · rfl

/-- What the reader takes for a denomination is what the check accepts, a final line feed
excepted. -/
theorem isBody_iff (d : Denom) :
    isBody d.toList ↔ isValid d ∧ d.toList.getLast? ≠ some '\n' := by
  constructor
  · intro h
    obtain ⟨-, -, -, -, hinner⟩ := exists_of_isBody h
    have hlast : d.toList.getLast? ≠ some '\n' := fun hl =>
      absurd (hinner '\n' (List.mem_of_getLast? hl)) (by decide)
    exact ⟨by rwa [isValid, dropFinalNewline_eq_self hlast], hlast⟩
  · rintro ⟨h, hlast⟩
    rwa [isValid, dropFinalNewline_eq_self hlast] at h

end Denom

namespace Coins

variable {c : Coins}

/-! ### One coin -/

def written (p : Denom × Int) : List Char := Nat.toDigits 10 p.2.toNat ++ p.1.toList

theorem isAsciiDigit_of_mem_toDigits {n : Nat} {x : Char} (h : x ∈ Nat.toDigits 10 n) :
    Denom.isAsciiDigit x :=
  Denom.isAsciiDigit_iff.2 (Nat.isDigit_of_mem_toDigits (by decide) (by decide) h)

theorem toNat_of_mem_written {p : Denom × Int} (hp : Denom.isBody p.1.toList) {x : Char}
    (hx : x ∈ written p) : 0x2F ≤ x.toNat ∧ x.toNat ≤ 0x7A := by
  rcases List.mem_append.1 hx with hx | hx
  · have := Denom.toNat_of_isAsciiDigit (isAsciiDigit_of_mem_toDigits hx)
    omega
  · obtain ⟨-, -, -, -, hinner⟩ := Denom.exists_of_isBody hp
    exact Denom.toNat_of_isInner (hinner x hx)

theorem written_ne_nil (p : Denom × Int) : written p ≠ [] :=
  List.append_ne_nil_of_left_ne_nil Nat.toDigits_ne_nil _

theorem asciiValue_toDigits (n : Nat) : asciiValue (Nat.toDigits 10 n) = n := by
  rw [asciiValue, ← Nat.ofDigitChars_eq_foldl, Nat.ofDigitChars_ten_toDigits]

theorem parseCoin?_written {p : Denom × Int} (hp : Denom.isBody p.1.toList) (hn : 0 ≤ p.2) :
    parseCoin? (written p) = some p := by
  have htrim : Text.trimBoth Text.isBlank (written p) = written p :=
    Text.trimBoth_isBlank_eq_self fun x hx => by
      have := toNat_of_mem_written hp hx
      omega
  -- The denomination starts with a letter, which ends the digits.
  obtain ⟨x, r, hcons, hx, -⟩ := Denom.exists_of_isBody hp
  have hstop : ¬ Denom.isAsciiDigit x := fun h => by
    have := Denom.toNat_of_isAsciiDigit h
    have := Denom.toNat_of_isLower hx
    omega
  have hdigits : (written p).takeWhile Denom.isAsciiDigit = Nat.toDigits 10 p.2.toNat := by
    rw [written, List.takeWhile_append_of_pos fun y hy => isAsciiDigit_of_mem_toDigits hy, hcons,
      List.takeWhile_cons_of_neg hstop, List.append_nil]
  have hdenom : (written p).dropWhile Denom.isAsciiDigit = p.1.toList := by
    rw [written, List.dropWhile_append_of_pos fun y hy => isAsciiDigit_of_mem_toDigits hy, hcons,
      List.dropWhile_cons_of_neg hstop]
  simp [parseCoin?, htrim, hdigits, hdenom, hp, asciiValue_toDigits, Nat.toDigits_ne_nil,
    Int.toNat_of_nonneg hn]

theorem isBody_of_parseCoin? {part : List Char} {d : Denom} {n : Int}
    (h : parseCoin? part = some (d, n)) : Denom.isBody d.toList ∧ 0 ≤ n := by
  simp only [parseCoin?] at h
  split at h
  · rename_i hpart
    cases h
    exact ⟨by simpa using hpart.2, Int.natCast_nonneg _⟩
  · cases h

/-! ### The expressions between the commas -/

theorem splitCommas_eq_splitOn (l : List Char) : splitCommas l = l.splitOn ',' := by
  induction l with
  | nil => rfl
  | cons x r ih =>
      rw [splitCommas, List.splitOn_cons_eq_if_modifyHead, ih]
      by_cases hx : x = ','
      · simp [hx]
      · cases hr : r.splitOn ',' with
        | nil => exact absurd hr (List.splitOn_ne_nil _ _)
        | cons p ps => simp [hx]

theorem toList_text (h : Normal c) : (text c).toList = [','].intercalate (c.map written) := by
  rw [text, h.sorted_eq, String.toList_intercalate, List.map_map]
  congr 1
  refine List.map_congr_left fun p hp => ?_
  have hn := (h.positive p.1 p.2 hp).le
  simp [written, ToString.toString, Int.repr_eq_if, hn]

theorem mem_intercalate {a x : Char} {ls : List (List Char)} (h : x ∈ [a].intercalate ls) :
    x = a ∨ ∃ l ∈ ls, x ∈ l := by
  induction ls with
  | nil => simp at h
  | cons l ls ih =>
      cases ls with
      | nil => exact .inr ⟨l, List.mem_cons_self, by simpa using h⟩
      | cons l' ls =>
          rw [List.intercalate_cons_cons, List.mem_append, List.mem_append] at h
          rcases h with (h | h) | h
          · exact .inr ⟨l, List.mem_cons_self, h⟩
          · exact .inl (List.mem_singleton.1 h)
          · obtain hx | ⟨m, hm, hx⟩ := ih h
            · exact .inl hx
            · exact .inr ⟨m, List.mem_cons_of_mem _ hm, hx⟩

/-- Written coins of new denominations are added one by one at the end. -/
theorem parseParts_written {a : Coins} (hn : (Table.keys (a ++ c)).Nodup)
    (hc : ∀ p ∈ c, Denom.isBody p.1.toList ∧ 0 ≤ p.2) :
    parseParts a (c.map written) = .ok (a ++ c) := by
  induction c generalizing a with
  | nil => simp [parseParts]
  | cons p c ih =>
      obtain ⟨hbody, hnonneg⟩ := hc p List.mem_cons_self
      have hnew : Table.get? a p.1 = none := by
        rw [Table.get?_eq_none_iff]
        intro hp
        rw [Table.keys, List.map_append] at hn
        exact (List.nodup_append.1 hn).2.2 _ hp _ List.mem_cons_self rfl
      have hset : Table.set a p.1 p.2 = a ++ [p] := Table.set_of_get?_none hnew p.2
      rw [List.map_cons, parseParts, parseCoin?_written hbody hnonneg]
      simp only [Table.contains, hnew, Option.isSome_none, Bool.false_eq_true, if_false, hset]
      rw [ih (by simpa using hn) fun q hq => hc q (List.mem_cons_of_mem _ hq)]
      simp

theorem proper_of_parseParts {a : Coins} (ha : Proper a)
    (hbody : ∀ d ∈ Table.keys a, Denom.isBody d.toList) {parts : List (List Char)}
    (h : parseParts a parts = .ok c) :
    Proper c ∧ ∀ d ∈ Table.keys c, Denom.isBody d.toList := by
  induction parts generalizing a with
  | nil =>
      cases h
      exact ⟨ha, hbody⟩
  | cons part parts ih =>
      rw [parseParts] at h
      cases hpart : parseCoin? part with
      | none => simp [hpart, Fault.fail] at h
      | some p =>
          obtain ⟨hd, hn⟩ := isBody_of_parseCoin? (d := p.1) (n := p.2) hpart
          simp only [hpart] at h
          split at h
          · cases h
          · refine ih ⟨Table.nodup_keys_set ha.distinct _ _, fun d n hmem => ?_⟩
              (fun d hmem => ?_) h
            · rcases Table.mem_set hmem with heq | hmem
              · cases heq
                exact hn
              · exact ha.nonneg d n hmem
            · rw [Table.keys_set] at hmem
              split at hmem
              · exact hbody d hmem
              · rcases List.mem_append.1 hmem with hmem | hmem
                · exact hbody d hmem
                · exact List.mem_singleton.1 hmem ▸ hd

/-! ### Reading what was written -/

theorem parse_eq (s : String) :
    parse s = if Text.trim s = [] then .ok []
      else parseParts [] (splitCommas (Text.trim s)) >>= normalize := by
  unfold parse
  split
  · rename_i h
    rw [if_pos h]
  · rename_i h
    rw [if_neg h]

theorem normal_of_parse {s : String} (h : parse s = .ok c) :
    Normal c ∧ ∀ d ∈ Table.keys c, Denom.isBody d.toList := by
  rw [parse_eq] at h
  split at h
  · cases h
    exact ⟨⟨List.Pairwise.nil, by simp⟩, by simp⟩
  · cases hparts : parseParts [] (splitCommas (Text.trim s)) with
    | error e => simp [hparts, bind, Except.bind] at h
    | ok t =>
        have hnorm : normalize t = .ok c := by simpa [hparts, bind, Except.bind] using h
        obtain ⟨ht, hbody⟩ := proper_of_parseParts proper_nil (by simp) hparts
        obtain ⟨hnormal, hkeys⟩ := normal_of_normalize ht hnorm
        exact ⟨hnormal, fun d hd => hbody d (hkeys hd)⟩

theorem parse_text (h : Normal c) (hbody : ∀ d ∈ Table.keys c, Denom.isBody d.toList) :
    parse c.text = .ok c := by
  rcases eq_or_ne c [] with rfl | hne
  · rfl
  have hparts : ∀ p ∈ c, Denom.isBody p.1.toList ∧ 0 ≤ p.2 := fun p hp =>
    ⟨hbody p.1 (List.mem_map_of_mem hp), (h.positive p.1 p.2 hp).le⟩
  have htrim : Text.trim c.text = [','].intercalate (c.map written) := by
    rw [Text.trim, toList_text h]
    refine Text.trimBoth_isBlank_eq_self fun x hx => ?_
    obtain rfl | ⟨l, hl, hx⟩ := mem_intercalate hx
    · decide
    · obtain ⟨p, hp, rfl⟩ := List.mem_map.1 hl
      have := toNat_of_mem_written (hparts p hp).1 hx
      omega
  have hsplit : splitCommas (Text.trim c.text) = c.map written := by
    rw [splitCommas_eq_splitOn, htrim]
    refine List.splitOn_intercalate _ (fun l hl hcomma => ?_) (by simpa using hne)
    obtain ⟨p, hp, rfl⟩ := List.mem_map.1 hl
    exact absurd (toNat_of_mem_written (hparts p hp).1 hcomma).1 (by decide)
  have htext : Text.trim c.text ≠ [] := by
    intro hnil
    obtain ⟨p, r, rfl⟩ := List.exists_cons_of_ne_nil hne
    rw [hnil, List.map_cons] at hsplit
    exact written_ne_nil p (List.cons.inj hsplit).1.symm
  have hread : parseParts [] (c.map written) = .ok c :=
    parseParts_written (a := []) h.proper.distinct hparts
  rw [parse_eq, if_neg htext, hsplit, hread]
  exact h.normalize_eq

/-- Writing and reading are inverse. The normal form of proper coins under denominations that the
check accepts is read back from its written form exactly if no denomination of it ends with a line
feed. All that is read at all has denominations that the check accepts, and is read back. -/
theorem parse_text_iff (c : Coins) (s : String) :
    (Proper c → (∀ d ∈ Table.keys c, Denom.isValid d) →
      ∃ c', normalize c = .ok c' ∧
        (parse c'.text = .ok c' ↔ ∀ d ∈ Table.keys c', d.toList.getLast? ≠ some '\n')) ∧
    ∀ read, parse s = .ok read →
      (∀ d ∈ Table.keys read, Denom.isValid d) ∧ parse read.text = .ok read := by
  constructor
  · intro hc hvalid
    obtain ⟨hnormal, hkeys⟩ := normal_of_normalize hc (normalize_eq hc)
    refine ⟨_, normalize_eq hc, fun hparse d hd => ?_, fun hlast => ?_⟩
    · exact ((Denom.isBody_iff d).1 ((normal_of_parse hparse).2 d hd)).2
    · exact parse_text hnormal fun d hd =>
        (Denom.isBody_iff d).2 ⟨hvalid d (hkeys hd), hlast d hd⟩
  · intro read hparse
    obtain ⟨hnormal, hbody⟩ := normal_of_parse hparse
    exact ⟨fun d hd => ((Denom.isBody_iff d).1 (hbody d hd)).1, parse_text hnormal hbody⟩

def unsortedCoins : Coins := [("rez", 5), ("res", 10), ("abc", 0)]

theorem parse_text_unsortedCoins :
    (Proper unsortedCoins ∧ (∀ d ∈ Table.keys unsortedCoins, Denom.isValid d) ∧
      ∃ c', normalize unsortedCoins = .ok c' ∧
        (parse c'.text = .ok c' ↔ ∀ d ∈ Table.keys c', d.toList.getLast? ≠ some '\n')) ∧
    parse " 5rez , 10res\n" = .ok [("res", 10), ("rez", 5)] ∧
      (∀ d ∈ Table.keys [("res", (10 : Int)), ("rez", 5)], Denom.isValid d) ∧
      parse (text [("res", 10), ("rez", 5)]) = .ok [("res", 10), ("rez", 5)] := by
  have hnonneg : ∀ p ∈ unsortedCoins, 0 ≤ p.2 := by decide
  have hproper : Proper unsortedCoins := ⟨by decide, fun d n hn => hnonneg (d, n) hn⟩
  have hvalid : ∀ d ∈ Table.keys unsortedCoins, Denom.isValid d := by decide
  have hread : parse " 5rez , 10res\n" = .ok [("res", 10), ("rez", 5)] := by rfl
  obtain ⟨hwritten, haccepted⟩ := parse_text_iff unsortedCoins " 5rez , 10res\n"
  exact ⟨⟨hproper, hvalid, hwritten hproper hvalid⟩, hread, haccepted _ hread⟩

/-- Coins whose denomination ends with a line feed. -/
def lineFeedCoins : Coins := [("res\n", 5)]

/-- The check accepts the denomination; written and read back, it has lost the line feed. -/
theorem parse_text_lineFeedCoins :
    Proper lineFeedCoins ∧ (∀ d ∈ Table.keys lineFeedCoins, Denom.isValid d) ∧
      normalize lineFeedCoins = .ok lineFeedCoins ∧
      parse lineFeedCoins.text = .ok [("res", 5)] ∧
      parse lineFeedCoins.text ≠ .ok lineFeedCoins := by
  have hnonneg : ∀ p ∈ lineFeedCoins, 0 ≤ p.2 := by decide
  have hread : parse lineFeedCoins.text = .ok [("res", 5)] := by rfl
  refine ⟨⟨by decide, fun d n hn => hnonneg (d, n) hn⟩, by decide, by rfl, hread, fun h => ?_⟩
  rw [hread] at h
  exact absurd (Except.ok.inj h) (by decide)

end Coins
end BondMarket
