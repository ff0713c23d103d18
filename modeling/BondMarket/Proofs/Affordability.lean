import BondMarket.Proofs.Run

/-!
Whether the closing of a batch is stopped by the price of a buy. The buys that cannot pay the prices
of the batch are cancelled, and the prices are computed anew; that is done once, and nobody looks
again at the buys that are left. They can all pay exactly if those that could pay the old prices
can also pay the new ones. Where the reserve has more than the curve asks for, the new price may be
above the old one: what was to be had for less was ordered by those that have been cancelled.
-/

namespace BondMarket

/-- The open buys of a batch that can pay its prices. -/
def Bond.payers (b : Bond) (β : Batch) : List BuyOrder :=
  β.openBuys.filter fun o => (b.checkAffordable o β.buyPrices).isOk

/-- The buys of a batch that can pay its prices could also pay the prices of a batch without the
other buys. -/
def Market.PayersStay (m : Market) (b : Bond) (β : Batch) : Prop :=
  ∀ o ∈ b.payers β, ∃ p,
    b.clearingPrices (m.reserveOf b) ((b.payers β).map fun o => o.size).sum β.totalSell = .ok p ∧
      b.Affords o p.buy

def Bond.exceeds (b : Bond) (o : BuyOrder) (prices : DecCoins) (d : Denom) : Bool :=
  match b.buyCost o.size prices with
  | .ok cost => o.maxPrices.amountOf d < cost.total.amountOf d
  | .error _ => false

theorem Bond.not_affords_of_exceeds {b : Bond} {o : BuyOrder} {prices : DecCoins} {d : Denom}
    (h : b.exceeds o prices d = true) : ¬ b.Affords o prices := by
  rintro ⟨cost, hcost, hle⟩
  simp only [exceeds, hcost, decide_eq_true_eq] at h
  exact absurd (hle d) (not_le.2 h)

/-- Whether a buy that can pay the prices of a batch would owe too much of a denomination without
the other buys. -/
def Market.losesPayer (m : Market) (b : Bond) (β : Batch) (d : Denom) : Bool :=
  (b.payers β).any fun o =>
    match b.clearingPrices (m.reserveOf b) ((b.payers β).map fun o => o.size).sum β.totalSell with
    | .ok p => b.exceeds o p.buy d
    | .error _ => false

theorem Market.not_payersStay_of_losesPayer {m : Market} {b : Bond} {β : Batch} {d : Denom}
    (h : m.losesPayer b β d = true) : ¬ m.PayersStay b β := by
  intro hstay
  obtain ⟨o, ho, hexceeds⟩ := List.any_eq_true.1 h
  obtain ⟨p, hp, hafford⟩ := hstay o ho
  rw [hp] at hexceeds
  exact Bond.not_affords_of_exceeds hexceeds hafford

theorem Bond.openBuys_of_passed {b : Bond} {prices : DecCoins} {orders orders' : List BuyOrder}
    (h : List.Forall₂ (b.Passed prices) orders orders')
    (hcheck : ∀ o ∈ orders, o.isOpen = true →
      (b.Affords o prices ↔ (b.checkAffordable o prices).isOk = true)) :
    orders'.filter (fun o => o.isOpen) =
      (orders.filter fun o => o.isOpen).filter fun o => (b.checkAffordable o prices).isOk := by
  induction h with
  | nil => rfl
  | @cons o o' orders orders' ho _ ih =>
      have hrest := ih fun o ho => hcheck o (List.mem_cons_of_mem _ ho)
      have hhead := hcheck o List.mem_cons_self
      -- A closed order stays closed; an open one is kept exactly if it passes the check.
      cases ho with
      | kept hkept =>
          cases hopen : o.isOpen with
          | false => simp [hopen, hrest]
          | true => simp [hopen, hrest, (hhead hopen).1 (hkept hopen)]
      | cancelled hopen hafford =>
          have hturned : (b.checkAffordable o prices).isOk = false := by
            rw [← Bool.not_eq_true, ← hhead hopen]
            exact hafford
          simp [hopen, hrest, hturned]

namespace Market

variable {cfg : Config} {bonded : Denom → Prop} {fills : Denom → Nat} {m m' : Market}
  {token : Denom} {b : Bond} {β β' : Batch}

theorem Kept.affords_iff_check (h : Kept cfg bonded m)
    (hb : Table.get? m.store.bonds token = some b)
    (hβ : Table.get? m.store.batches token = some β) (hc : m.Current b β) {o : BuyOrder}
    (ho : o ∈ β.buys) (hopen : o.isOpen = true) :
    b.Affords o β.buyPrices ↔ (b.checkAffordable o β.buyPrices).isOk = true := by
  have hheld := h.held_of_get? hb hβ
  have hformed := hheld.orders.buys o ho
  have hpos := hheld.orders.total_pos_of_buy (List.mem_filter.2 ⟨ho, hopen⟩)
  obtain ⟨hafford, hok⟩ | ⟨hafford, detail, herror⟩ := Bond.checkAffordable_spec
    hheld.formed.txFee (hheld.prices_proper h.solvent hc hpos).1 hformed.size_pos.le
    hformed.maxPrices
  · simp [hafford, hok, Except.isOk, Except.toBool]
  · simp [hafford, herror, Except.isOk, Except.toBool]

theorem Swept.openBuys_eq (h : Kept cfg bonded m)
    (hb : Table.get? m.store.bonds token = some b)
    (hβ : Table.get? m.store.batches token = some β) (hc : m.Current b β)
    (hswept : Swept cfg bonded token b β β' m m') : β'.openBuys = b.payers β :=
  Bond.openBuys_of_passed hswept.passed fun _ ho hopen => h.affords_iff_check hb hβ hc ho hopen

/-- After the pass the open buys can pay exactly if those that could pay before stay able to. -/
theorem Swept.pays_iff (h : Kept cfg bonded m)
    (hb : Table.get? m.store.bonds token = some b)
    (hβ : Table.get? m.store.batches token = some β) (hc : m.Current b β)
    (hswept : Swept cfg bonded token b β β' m m') :
    (∀ o ∈ β'.openBuys, b.Affords o β'.buyPrices) ↔ m.PayersStay b β := by
  have hopen := hswept.openBuys_eq h hb hβ hc
  have hheld := hswept.kept.held_of_get? hswept.bond hswept.batch
  have hreserve : m'.reserveOf b = m.reserveOf b :=
    reserveOf_congr (hheld.formed.address ▸ hswept.reserve)
  have htotalBuy : ((b.payers β).map fun o => o.size).sum = β'.totalBuy := by
    rw [← hopen, hheld.orders.totalBuy]
    rfl
  have htotalSell : β.totalSell = β'.totalSell := by rw [hswept.same]; rfl
  have hprices {o : BuyOrder} (ho : o ∈ β'.openBuys) :
      b.clearingPrices (m.reserveOf b) β'.totalBuy β'.totalSell =
        .ok ⟨β'.buyPrices, β'.sellPrices⟩ :=
    hreserve ▸ hswept.current (hheld.orders.total_pos_of_buy ho)
  rw [PayersStay, htotalBuy, htotalSell, ← hopen]
  refine forall₂_congr fun o ho => ⟨fun hafford => ⟨_, hprices ho, hafford⟩, ?_⟩
  rintro ⟨p, hp, hafford⟩
  cases hp.symm.trans (hprices ho)
  exact hafford

theorem Kept.payersStay (h : Kept cfg bonded m)
    (hb : Table.get? m.store.bonds token = some b)
    (hβ : Table.get? m.store.batches token = some β) (hc : m.Current b β)
    (hall : ∀ o ∈ β.openBuys, (b.checkAffordable o β.buyPrices).isOk = true) :
    m.PayersStay b β := by
  have hpayers : b.payers β = β.openBuys := List.filter_eq_self.2 hall
  have hheld := h.held_of_get? hb hβ
  have hsum : (β.openBuys.map fun o => o.size).sum = β.totalBuy := hheld.orders.totalBuy.symm
  rw [PayersStay, hpayers, hsum]
  intro o ho
  obtain ⟨hmem, hopen⟩ := List.mem_filter.1 ho
  exact ⟨_, hc (hheld.orders.total_pos_of_buy ho),
    (h.affords_iff_check hb hβ hc hmem hopen).2 (hall o ho)⟩

theorem Swept.splitHatchPayment_of_planBuy (hswept : Swept cfg bonded token b β β' m m')
    {o : BuyOrder} (ho : o ∈ β'.openBuys) (hafford : b.Affords o β'.buyPrices) {supply : Int}
    {r reserve : Coins} {e : Error}
    (he : (b.marked supply r).planBuy reserve o β'.buyPrices = .error e) :
    b.inHatch = true ∧
      ∃ paid, (b.marked supply r).splitHatchPayment reserve o.size paid = .error e := by
  have hheld := hswept.kept.held_of_get? hswept.bond hswept.batch
  have hformed := hheld.orders.buys o (List.mem_filter.1 ho).1
  have hpos := hheld.orders.total_pos_of_buy ho
  have hproper := (hheld.prices_proper hswept.kept.solvent hswept.current hpos).1
  obtain ⟨hhatch, paid, -, -, hsplit⟩ := Bond.splitHatchPayment_of_planBuy (b := b.marked supply r)
    hheld.formed.txFee hproper hformed.size_pos.le hformed.maxPrices hafford he
  exact ⟨hhatch, paid, hsplit⟩

theorem closeBatch_stopped (hsep : cfg.Separate) {os : List Outcome}
    (hrun : cancelUnfulfillable cfg token m = .ok os m')
    (hswept : Swept cfg bonded token b β β' m m')
    (hshort : ¬ ∀ o ∈ β'.openBuys, b.Affords o β'.buyPrices) :
    (closeBatch cfg token).Sat m (fun _ _ => False) (fun e _ => e.isFatal = true) := by
  -- The pass is known to end in `m'`, so that the buys that are then executed are those of `β'`.
  unfold closeBatch settle
  rw [Action.sat_bind, Action.sat_bind, Action.sat_of_eq_ok hrun]
  simp only [Action.sat_bind, Action.sat_get, Action.sat_lift_of_ok (batch_eq_ok hswept.batch)]
  exact (performOrders_sat hsep hswept.kept hswept.bond hswept.batch hswept.current).mono
    (fun _ _ hdone => absurd hdone.2.2.2.1 hshort) fun _ _ he => he.1.isFatal

end Market

theorem CleanRun.payersStay {cfg : Config} {bonded : Denom → Prop} {log : List Response}
    {m : Market} (h : CleanRun cfg bonded log m) {t : Denom} {b : Bond} {β : Batch}
    (hb : m.store.bond? t = some b) (hβ : m.store.batch t = .ok β)
    (hall : ∀ o ∈ β.openBuys, (b.checkAffordable o β.buyPrices).isOk = true) :
    m.PayersStay b β := by
  obtain ⟨-, hsound⟩ := h.sound
  obtain ⟨hbatch, -⟩ := h.exists_swept hb hβ
  exact hsound.kept.payersStay hb hbatch (hsound.current t b β hb hbatch) hall

/-- The last cycle of a batch begins with the pass over its buys. Afterwards every open buy can pay
the prices of the batch exactly if those that could pay before stay able to. If they do, what is
left to fail in planning a buy is the division of its payment in a hatch; if they do not, the cycle
ends in a fatal error. -/
theorem CleanRun.closing_pays_iff {cfg : Config} {bonded : Denom → Prop} {log : List Response}
    {m : Market} (h : CleanRun cfg bonded log m) {t : Denom} {b : Bond} {β : Batch}
    (hb : m.store.bond? t = some b) (hβ : m.store.batch t = .ok β)
    (hlast : β.blocksRemaining ≤ 1) :
    ∃ os m' β',
      Market.cancelUnfulfillable cfg t
        (m.withBatch t { β with blocksRemaining := β.blocksRemaining - 1 }) = .ok os m' ∧
      m'.store.batch t = .ok β' ∧
      ((∀ o ∈ β'.openBuys, b.Affords o β'.buyPrices) ↔ m.PayersStay b β) ∧
      (m.PayersStay b β → ∀ o ∈ β'.openBuys, ∀ supply r reserve e,
        (b.marked supply r).planBuy reserve o β'.buyPrices = .error e →
          b.inHatch = true ∧
            ∃ paid, (b.marked supply r).splitHatchPayment reserve o.size paid = .error e) ∧
      (¬ m.PayersStay b β →
        ∃ e m'', Market.elapseCycle cfg t m = .error e m'' ∧ e.isFatal = true) := by
  obtain ⟨hbatch, hcounted, os, m', β', hrun, hswept⟩ := h.exists_swept hb hβ
  have hcurrent := hcounted.current t b _ hb (Market.get?_withBatch ..)
  have hpays := hswept.pays_iff hcounted.kept hb (Market.get?_withBatch ..) hcurrent
  -- What counts down has no part in the prices.
  have hiff : (∀ o ∈ β'.openBuys, b.Affords o β'.buyPrices) ↔ m.PayersStay b β := hpays
  refine ⟨os, m', β', hrun, Market.batch_eq_ok hswept.batch, hiff, fun hstay o ho supply r reserve
    e he => ?_, fun hshort => ?_⟩
  · exact hswept.splitHatchPayment_of_planBuy ho (hiff.2 hstay o ho) he
  · exact (Market.elapseCycle_stopped hb hbatch hlast
      (Market.closeBatch_stopped h.sound.1 hrun hswept (hshort ∘ hiff.1))).exists_error

/-- At a flat price, six buys are placed that can all pay, none is cancelled, and each of them
can be planned. Of two later buys and a sell the cycle is stopped: the buy that can pay for
nineteen tokens at the price of forty-one, of which the reserve has nineteen to spare, cannot pay
for them at the spot price. -/
theorem closing_pays_flatPrice :
    (∃ log m b β os m' β', CleanRun {} (· ∈ ["abc"]) log m ∧ m.store.bond? "abc" = some b ∧
      m.store.batch "abc" = .ok β ∧ β.blocksRemaining ≤ 1 ∧ m.PayersStay b β ∧
      Market.cancelUnfulfillable {} "abc"
        (m.withBatch "abc" { β with blocksRemaining := β.blocksRemaining - 1 }) = .ok os m' ∧
      m'.store.batch "abc" = .ok β' ∧ β'.openBuys.length = 6 ∧
      ∀ o ∈ β'.openBuys, b.Affords o β'.buyPrices ∧ ∀ supply r reserve,
        ∃ plan, (b.marked supply r).planBuy reserve o β'.buyPrices = .ok plan) ∧
    ∃ log m b β, CleanRun {} (· ∈ ["abc"]) log m ∧ m.store.bond? "abc" = some b ∧
      m.store.batch "abc" = .ok β ∧ β.blocksRemaining ≤ 1 ∧ ¬ m.PayersStay b β ∧
      ∃ e m', Market.elapseCycle {} "abc" m = .error e m' ∧ e.isFatal = true := by
  constructor
  · obtain ⟨log, m, hrun, hcheck⟩ := CleanRun.exists_of_playClean ["abc"] (flatPriceEvents.take 10)
      (fun m => (Table.get? m.store.bonds "abc").any fun b =>
        (Table.get? m.store.batches "abc").any fun β =>
          β.blocksRemaining ≤ 1 ∧ b.inHatch = false ∧
          (β.openBuys.all fun o => (b.checkAffordable o β.buyPrices).isOk) = true ∧
          (Market.cancelUnfulfillable {} "abc").Sat
            (m.withBatch "abc" { β with blocksRemaining := β.blocksRemaining - 1 })
            (fun _ m' => (Table.get? m'.store.batches "abc").any (fun β' =>
              β'.openBuys.length = 6) = true) fun _ _ => False)
      (by decide +kernel)
    obtain ⟨b, hb, hcheck⟩ := (Option.any_eq_true _ _).1 hcheck
    obtain ⟨β, hβ, hcheck⟩ := (Option.any_eq_true _ _).1 hcheck
    obtain ⟨hlast, hopen, hall, hpass⟩ := of_decide_eq_true hcheck
    have hbatch := Market.batch_eq_ok hβ
    have hstay := hrun.payersStay hb hbatch (List.all_eq_true.1 hall)
    obtain ⟨os, m', β', hswept, hβ', hiff, hplanned, -⟩ := hrun.closing_pays_iff hb hbatch hlast
    rw [Action.sat_of_eq_ok hswept] at hpass
    obtain ⟨β'', hβ'', hsix⟩ := (Option.any_eq_true _ _).1 hpass
    obtain rfl := Except.ok.inj ((Market.batch_eq_ok hβ'').symm.trans hβ')
    refine ⟨log, m, b, β, os, m', _, hrun, hb, hbatch, hlast, hstay, hswept, hβ',
      of_decide_eq_true hsix, fun o ho => ⟨hiff.2 hstay o ho, fun supply r reserve => ?_⟩⟩
    cases hplan : (b.marked supply r).planBuy reserve o _ with
    | ok plan => exact ⟨plan, rfl⟩
    | error e =>
        obtain ⟨hhatch, -⟩ := hplanned hstay o ho supply r reserve e hplan
        cases hopen.symm.trans hhatch
  · obtain ⟨log, m, hrun, hcheck⟩ := exists_flatPriceRun
      (fun m => (Table.get? m.store.bonds "abc").any fun b =>
        (Table.get? m.store.batches "abc").any fun β =>
          β.blocksRemaining ≤ 1 ∧ m.losesPayer b β "res" = true)
      (by decide +kernel)
    obtain ⟨b, hb, hcheck⟩ := (Option.any_eq_true _ _).1 hcheck
    obtain ⟨β, hβ, hcheck⟩ := (Option.any_eq_true _ _).1 hcheck
    obtain ⟨hlast, hloses⟩ := of_decide_eq_true hcheck
    have hshort := Market.not_payersStay_of_losesPayer hloses
    have hbatch := Market.batch_eq_ok hβ
    obtain ⟨-, -, -, -, -, -, -, hstopped⟩ := hrun.closing_pays_iff hb hbatch hlast
    exact ⟨log, m, b, β, hrun, hb, hbatch, hlast, hshort, hstopped hshort⟩

/-- After the pass of the last cycle, in the run of `flatPriceEvents`, an open buy cannot pay the
prices of the batch, and the cycle is stopped by it. -/
theorem flatPriceEvents_stopped :
    ∃ log m b β os m₁ β₁ m₂, playClean {} ["abc"] [] {} flatPriceEvents = some (log, m) ∧
      CleanRun {} (· ∈ ["abc"]) log m ∧
      m.store.bond? "abc" = some b ∧ m.store.batch "abc" = .ok β ∧
      Market.cancelUnfulfillable {} "abc"
        (m.withBatch "abc" { β with blocksRemaining := β.blocksRemaining - 1 }) = .ok os m₁ ∧
      m₁.store.batch "abc" = .ok β₁ ∧ (∃ o ∈ β₁.openBuys, ¬ b.Affords o β₁.buyPrices) ∧
      Market.elapseCycle {} "abc" m =
        .error (.violated ["buy from carol costs 2res > max prices 1res"]) m₂ := by
  have hplay : (playClean {} ["abc"] [] {} flatPriceEvents).any (fun s =>
      (Table.get? s.2.store.bonds "abc").any fun b =>
        (Table.get? s.2.store.batches "abc").any fun β =>
          (Market.cancelUnfulfillable {} "abc").Sat
            (s.2.withBatch "abc" { β with blocksRemaining := β.blocksRemaining - 1 })
            (fun _ m₁ => (Table.get? m₁.store.batches "abc").any (fun β₁ =>
              β₁.openBuys.any fun o => b.exceeds o β₁.buyPrices "res") = true)
            (fun _ _ => False) ∧
          (Market.elapseCycle {} "abc").Sat s.2 (fun _ _ => False) fun e _ =>
            e = .violated ["buy from carol costs 2res > max prices 1res"]) = true := by
    decide +kernel
  obtain ⟨⟨log, m⟩, hplay, hcheck⟩ := (Option.any_eq_true _ _).1 hplay
  have hrun := (CleanRun.start Config.separate_default).of_playClean hplay
  obtain ⟨b, hb, hcheck⟩ := (Option.any_eq_true _ _).1 hcheck
  obtain ⟨β, hβ, hcheck⟩ := (Option.any_eq_true _ _).1 hcheck
  obtain ⟨hpass, hcycle⟩ := of_decide_eq_true hcheck
  obtain ⟨os, m₁, hpass, hleft⟩ := hpass.exists_ok
  obtain ⟨e, m₂, hcycle, rfl⟩ := hcycle.exists_error
  obtain ⟨β₁, hβ₁, hleft⟩ := (Option.any_eq_true _ _).1 hleft
  obtain ⟨o, ho, hexceeds⟩ := List.any_eq_true.1 hleft
  exact ⟨log, m, b, β, os, m₁, β₁, m₂, hplay, hrun, hb, Market.batch_eq_ok hβ, hpass,
    Market.batch_eq_ok hβ₁, ⟨o, ho, Bond.not_affords_of_exceeds hexceeds⟩, hcycle⟩

end BondMarket
