import BondMarket.Proofs.Proceeds

/-!
Coins as an algebra. A sum and a difference are the normal forms of any coins that hold the sums and
the differences of the amounts, and normal forms with the same amounts are equal; so equations
between coins are equations between their amounts. There is a difference exactly where no amount
that is taken is above what there is, which is what `anyAbove` decides.
-/

namespace BondMarket
namespace Coins

variable {a b c : Coins}

theorem add_eq_normalize (ha : Proper a) (hb : Proper b) (hc : Proper c)
    (h : ∀ d, amountOf c d = amountOf a d + amountOf b d) : add a b = normalize c :=
  normalize_congr (proper_addEntries ha hb) hc fun d => by
    rw [amountOf_addEntries a b d hb.distinct, h]

theorem sub_eq_normalize (ha : Proper a) (hb : Proper b) (hc : Proper c)
    (h : ∀ d, amountOf a d = amountOf c d + amountOf b d) : sub a b = normalize c := by
  obtain ⟨rest, hrest, hproper, hamount⟩ := exists_subEntries ha hb fun d => by
    have := hc.amountOf_nonneg d
    rw [h]
    omega
  rw [sub, hrest]
  exact normalize_congr hproper hc fun d => by rw [hamount, h, add_sub_cancel_right]

theorem le_of_subEntries (hb : (Table.keys b).Nodup) (h : subEntries a b = .ok c) :
    ∀ d n, (d, n) ∈ b → n ≤ amountOf a d := by
  induction b generalizing a with
  | nil => simp
  | cons p b ih =>
      obtain ⟨hp, hb⟩ := Table.nodup_keys_cons.1 hb
      simp only [subEntries] at h
      split at h
      · cases h
      · rename_i hrest
        intro d n hn
        rcases List.mem_cons.1 hn with heq | hn
        · cases heq
          exact sub_nonneg.1 (not_lt.1 hrest)
        · have hne : p.1 ≠ d := by
            rintro rfl
            exact hp (Table.mem_keys_of_mem hn)
          simpa only [amountOf_set, if_neg hne] using ih hb h d n hn

/-- There is a difference exactly where nothing that is taken is above what there is. -/
theorem exists_sub_iff (ha : Proper a) (hb : Proper b) :
    (∃ rest, sub b a = .ok rest) ↔ anyAbove a b = false := by
  rw [anyAbove_eq_false_iff ha hb]
  constructor
  · rintro ⟨rest, hrest⟩ d
    obtain ⟨taken, htaken, -⟩ := Result.bind_eq_ok.1 hrest
    by_cases hd : d ∈ Table.keys a
    · obtain ⟨n, hn⟩ := Table.mem_keys_iff.1 hd
      have hmem := Table.mem_of_get? hn
      rw [amountOf_of_mem ha.distinct hmem]
      exact le_of_subEntries ha.distinct htaken d n hmem
    · rw [amountOf_of_not_mem hd]
      exact hb.amountOf_nonneg d
  · intro hle
    obtain ⟨rest, hrest, -⟩ := sub_spec hb ha hle
    exact ⟨rest, hrest⟩

theorem add_of_sub (ha : Proper a) (hb : Proper b) {rest : Coins} (h : sub b a = .ok rest) :
    add rest a = normalize b := by
  have hle := (anyAbove_eq_false_iff ha hb).1 ((exists_sub_iff ha hb).1 ⟨rest, h⟩)
  obtain ⟨rest', hrest', hproper, hamount⟩ := sub_spec hb ha hle
  cases h.symm.trans hrest'
  exact add_eq_normalize hproper ha hb fun d => by rw [hamount, sub_add_cancel]

theorem sub_of_add (ha : Proper a) (hb : Proper b) {sum : Coins} (h : add a b = .ok sum) :
    sub sum b = normalize a := by
  obtain ⟨sum', hsum', hproper, hamount⟩ := add_spec ha hb
  cases h.symm.trans hsum'
  exact sub_eq_normalize hproper hb ha hamount

protected theorem add_comm (ha : Proper a) (hb : Proper b) : add a b = add b a :=
  add_eq_normalize ha hb (proper_addEntries hb ha) fun d => by
    rw [amountOf_addEntries b a d ha.distinct, Int.add_comm]

protected theorem add_assoc (ha : Proper a) (hb : Proper b) (hc : Proper c) {ab bc : Coins}
    (hab : add a b = .ok ab) (hbc : add b c = .ok bc) : add ab c = add a bc := by
  obtain ⟨ab', hab', hproper, hamount⟩ := add_spec ha hb
  obtain ⟨bc', hbc', hproper', hamount'⟩ := add_spec hb hc
  cases hab.symm.trans hab'
  cases hbc.symm.trans hbc'
  refine add_eq_normalize hproper hc (proper_addEntries ha hproper') fun d => ?_
  rw [amountOf_addEntries a bc d hproper'.distinct, hamount, hamount', add_assoc]

end Coins

namespace Bond

variable {b : Bond} {prices : DecCoins}

theorem proper_total_of_buyCost (hp : (Table.keys prices).Nodup) {n : Int} {cost : BuyCost}
    (h : b.buyCost n prices = .ok cost) : cost.total.Proper := by
  obtain ⟨rounded, hrounded, h⟩ := Result.bind_eq_ok.1 h
  obtain ⟨fees, -, h⟩ := Result.bind_eq_ok.1 h
  obtain ⟨total, htotal, h⟩ := Result.bind_eq_ok.1 h
  cases h
  have hvalues : (Table.keys (prices.times n)).Nodup := by
    rw [DecCoins.times, Table.keys_mapValues]
    exact Table.nodup_keys_sorted hp
  have hproper : rounded.Proper := Coins.proper_of_ofEntries hrounded (by simpa using hvalues)
  exact Coins.proper_of_ofEntries htotal (by
    simpa using Coins.nodup_keys_addEntries hproper.distinct fees)

/-- Behind its guard a plan of a buy does not fail at the refund: the refund exists, every plan has
it, and where there is no plan the payment could not be divided in a hatch. -/
theorem planBuy_of_affordable (reserve : Coins) {o : BuyOrder} {cost : BuyCost}
    (hp : (Table.keys prices).Nodup) (hmax : o.maxPrices.Proper)
    (hcost : b.buyCost o.size prices = .ok cost)
    (habove : cost.total.anyAbove o.maxPrices = false) :
    ∃ refund, o.maxPrices.sub cost.total = .ok refund ∧
      (∀ plan, b.planBuy reserve o prices = .ok plan → plan.refund = refund) ∧
      ∀ e, b.planBuy reserve o prices = .error e →
        b.inHatch = true ∧ b.splitHatchPayment reserve o.size cost.prices = .error e := by
  obtain ⟨refund, hrefund⟩ :=
    (Coins.exists_sub_iff (proper_total_of_buyCost hp hcost) hmax).2 habove
  refine ⟨refund, hrefund, ?_⟩
  simp only [planBuy, hcost, habove, hrefund, Result.ok_bind, Bool.false_eq_true, if_false]
  cases hhatch : b.inHatch with
  | false => simp
  | true => cases b.splitHatchPayment reserve o.size cost.prices <;> simp

end Bond

namespace Coins

variable {a b c : Coins}

/-- Comparing, taking away and adding agree. One can take `a` from `b` exactly where no amount of
`a` is above that of `b`, and what was taken can be put back; what was added can be taken away; the
order of summands does not matter, nor how they are grouped. So a buy whose total is not above its
escrow `b` has a refund, which makes up the escrow with the total, and the plan of the buy does not
fail at it. -/
theorem add_sub_agree (ha : Proper a) (hb : Proper b) (hc : Proper c) :
    (∃ a' b', normalize a = .ok a' ∧ normalize b = .ok b' ∧
      ((∃ rest, sub b a = .ok rest) ↔ anyAbove a b = false) ∧
      (∀ rest, sub b a = .ok rest → add rest a = .ok b') ∧
      ∃ sum, add a b = .ok sum ∧ add b a = .ok sum ∧ sub sum b = .ok a') ∧
    (∃ ab bc abc, add a b = .ok ab ∧ add b c = .ok bc ∧ add ab c = .ok abc ∧
      add a bc = .ok abc) ∧
    ∀ (bond : Bond) (reserve : Coins) (o : BuyOrder) (prices : DecCoins) (cost : Bond.BuyCost),
      o.maxPrices = b → (Table.keys prices).Nodup → bond.buyCost o.size prices = .ok cost →
      anyAbove cost.total b = false →
      ∃ refund b', sub b cost.total = .ok refund ∧ normalize b = .ok b' ∧
        add refund cost.total = .ok b' ∧
        (∀ plan, bond.planBuy reserve o prices = .ok plan → plan.refund = refund) ∧
        ∀ e, bond.planBuy reserve o prices = .error e →
          bond.inHatch = true ∧ bond.splitHatchPayment reserve o.size cost.prices = .error e := by
  have hnormalize := normalize_eq hb
  refine ⟨⟨_, _, normalize_eq ha, hnormalize, exists_sub_iff ha hb, fun rest hrest => ?_, ?_⟩,
    ?_, fun bond reserve o prices cost hmax hprices hcost habove => ?_⟩
  · exact (add_of_sub ha hb hrest).trans hnormalize
  · obtain ⟨sum, hsum, -⟩ := add_spec ha hb
    exact ⟨sum, hsum, (Coins.add_comm hb ha).trans hsum,
      (sub_of_add ha hb hsum).trans (normalize_eq ha)⟩
  · obtain ⟨ab, hab, hproper, -⟩ := add_spec ha hb
    obtain ⟨bc, hbc, -⟩ := add_spec hb hc
    obtain ⟨abc, habc, -⟩ := add_spec hproper hc
    exact ⟨ab, bc, abc, hab, hbc, habc, (Coins.add_assoc ha hb hc hab hbc).symm.trans habc⟩
  · subst hmax
    obtain ⟨refund, hrefund, hplan⟩ :=
      Bond.planBuy_of_affordable reserve hprices hb hcost habove
    exact ⟨refund, _, hrefund, hnormalize,
      (add_of_sub (Bond.proper_total_of_buyCost hprices hcost) hb hrefund).trans hnormalize, hplan⟩

def escrowed : Coins := [("two", 310), ("one", 2)]

def charged : Bond.BuyCost := ⟨[("one", 1), ("two", 300)], [("one", 1), ("two", 3)],
  [("one", 2), ("two", 303)]⟩

def escrowedBuy : BuyOrder := { address := "alice", amount := ⟨"abc", 3⟩, maxPrices := escrowed }

/-- The cost takes all of the first token and leaves seven of the second. -/
theorem add_sub_agree_escrow :
    (Proper charged.total ∧ Proper escrowed ∧ Proper [("abc", 0), ("two", 1)]) ∧
    ((∃ rest, sub escrowed charged.total = .ok rest) ↔ anyAbove charged.total escrowed = false) ∧
    add [("two", 7)] charged.total = .ok [("one", 2), ("two", 310)] ∧
    sub [("one", 4), ("two", 613)] escrowed = .ok charged.total ∧
    (∃ ab bc abc, add charged.total escrowed = .ok ab ∧
      add escrowed [("abc", 0), ("two", 1)] = .ok bc ∧
      add ab [("abc", 0), ("two", 1)] = .ok abc ∧ add charged.total bc = .ok abc) ∧
    Bond.percentCharging.buyCost 3 Bond.twoPrices = .ok charged ∧
    anyAbove charged.total escrowed = false ∧
    ∃ refund b', sub escrowed charged.total = .ok refund ∧ normalize escrowed = .ok b' ∧
      add refund charged.total = .ok b' ∧
      (∀ plan, Bond.percentCharging.planBuy [] escrowedBuy Bond.twoPrices = .ok plan →
        plan.refund = refund) ∧
      ∀ e, Bond.percentCharging.planBuy [] escrowedBuy Bond.twoPrices = .error e →
        Bond.percentCharging.inHatch = true ∧
        Bond.percentCharging.splitHatchPayment [] 3 charged.prices = .error e := by
  have hproper {c : Coins} (hc : (Table.keys c).Nodup) (hn : ∀ p ∈ c, 0 ≤ p.2) : Proper c :=
    ⟨hc, fun d n hmem => hn (d, n) hmem⟩
  have hcharged : Proper charged.total := hproper (by decide) (by decide)
  have hescrowed : Proper escrowed := hproper (by decide) (by decide)
  have hthird : Proper [("abc", 0), ("two", 1)] := hproper (by decide) (by decide)
  have hsub : sub escrowed charged.total = .ok [("two", 7)] := by rfl
  have hadd : add charged.total escrowed = .ok [("one", 4), ("two", 613)] := by rfl
  have hcost : Bond.percentCharging.buyCost 3 Bond.twoPrices = .ok charged := by decide +kernel
  have habove : anyAbove charged.total escrowed = false := by rfl
  obtain ⟨⟨a', b', ha', hb', hiff, hback, sum, hsum, -, hout⟩, hassoc, hbuy⟩ :=
    add_sub_agree hcharged hescrowed hthird
  cases hadd.symm.trans hsum
  have hnormal : normalize escrowed = .ok [("one", 2), ("two", 310)] := by rfl
  cases hnormal.symm.trans hb'
  have hnormal' : normalize charged.total = .ok charged.total := by rfl
  cases hnormal'.symm.trans ha'
  exact ⟨⟨hcharged, hescrowed, hthird⟩, hiff, hback _ hsub, hout, hassoc, hcost, habove,
    hbuy Bond.percentCharging [] escrowedBuy Bond.twoPrices charged rfl (by decide) hcost habove⟩

end Coins
end BondMarket
