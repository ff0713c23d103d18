import BondMarket.Proofs.Invariant

/-!
Cancelling the buys of a batch that cannot pay. From a sound market the pass always comes to its
end: each refund is covered by the escrow account, and the prices that are computed anew exist.
It leaves a sound market, in which the buys of the batch are those of before, each kept or
cancelled by what it could pay at the *old* prices.
-/

namespace BondMarket

def BuyOrder.closed (o : BuyOrder) (reason : String) : BuyOrder :=
  { o with cancelReason := some reason }

@[simp] theorem BuyOrder.isOpen_closed (o : BuyOrder) (reason : String) :
    (o.closed reason).isOpen = false := rfl

theorem BuyOrder.Formed.closed {cfg : Config} {token : Denom} {o : BuyOrder}
    (h : o.Formed cfg token) (reason : String) : (o.closed reason).Formed cfg token :=
  ⟨h.user, h.size_pos, h.denom, h.maxPrices⟩

/-- What the pass makes of a buy: an open one is kept if it can pay the prices, and cancelled if it
cannot. -/
inductive Bond.Passed (b : Bond) (prices : DecCoins) : BuyOrder → BuyOrder → Prop
  | kept {o : BuyOrder} (h : o.isOpen = true → b.Affords o prices) : Passed b prices o o
  | cancelled {o : BuyOrder} {reason : String} (hopen : o.isOpen = true)
      (h : ¬ b.Affords o prices) : Passed b prices o (o.closed reason)

theorem Bond.eq_of_passed {b : Bond} {prices : DecCoins} {orders orders' : List BuyOrder}
    (h : List.Forall₂ (b.Passed prices) orders orders')
    (hafford : ∀ o ∈ orders, o.isOpen = true → b.Affords o prices) : orders' = orders := by
  induction h with
  | nil => rfl
  | cons ho _ ih =>
      have hrest := ih fun o ho => hafford o (List.mem_cons_of_mem _ ho)
      cases ho with
      | kept => rw [hrest]
      | cancelled hopen hnot => exact absurd (hafford _ List.mem_cons_self hopen) hnot

def Batch.closeBuy (β : Batch) (pre : List BuyOrder) (o : BuyOrder) (rest : List BuyOrder)
    (reason : String) : Batch :=
  { β with buys := pre ++ o.closed reason :: rest, totalBuy := β.totalBuy - o.size }

/-- A batch with other buys, and the total that goes with them. -/
def Batch.withBuys (β : Batch) (buys : List BuyOrder) : Batch :=
  { β with buys, totalBuy := buySizes buys }

theorem Batch.cancelBuy_eq {β : Batch} {pre rest : List BuyOrder} {o : BuyOrder}
    (hβ : β.buys = pre ++ o :: rest) (ho : o.isOpen = true) (reason : String) :
    β.cancelBuy pre.length reason = .ok (o.closed reason, β.closeBuy pre o rest reason) := by
  have hget : orderAt β.buys pre.length = .ok o := by simp [orderAt, hβ]
  have hcancel : o.cancel reason = .ok (o.closed reason) := by
    simp [BuyOrder.cancel, Order.cancel, ho, BuyOrder.closed]
  have hset : β.buys.set pre.length (o.closed reason) = pre ++ o.closed reason :: rest := by
    simp [hβ]
  simp only [cancelBuy, hget, hcancel, hset, Result.ok_bind, Result.pure_eq_ok]
  rfl

namespace Batch

variable {cfg : Config} {token : Denom} {β : Batch} {pre rest : List BuyOrder} {o : BuyOrder}

theorem Formed.closeBuy (h : β.Formed cfg token) (hsplit : β.buys = pre ++ o :: rest)
    (ho : o.isOpen = true) (reason : String) :
    (β.closeBuy pre o rest reason).Formed cfg token where
  buys o' ho' := by
    rcases List.mem_append.1 ho' with ho' | ho'
    · exact h.buys o' (hsplit ▸ List.mem_append_left _ ho')
    · rcases List.mem_cons.1 ho' with rfl | ho'
      · exact (h.buys o (hsplit ▸ by simp)).closed reason
      · exact h.buys o' (hsplit ▸ by simp [ho'])
  sells := h.sells
  swaps := h.swaps
  totalBuy := by
    show β.totalBuy - o.size = buySizes (pre ++ o.closed reason :: rest)
    rw [h.totalBuy, hsplit]
    simp [ho]
    omega
  totalSell := h.totalSell

theorem pledged_closeBuy (hsplit : β.buys = pre ++ o :: rest) (ho : o.isOpen = true)
    (reason : String) (d : Denom) :
    (β.closeBuy pre o rest reason).pledged d + o.maxPrices.amountOf d = β.pledged d := by
  show buyPledges (pre ++ o.closed reason :: rest) d + swapPledges β.swaps d + _ = _
  rw [pledged, hsplit]
  simp [ho]
  omega

theorem closeBuy_withBuys (ho : o.isOpen = true) (reason : String) :
    (β.withBuys (pre ++ o :: rest)).closeBuy pre o rest reason =
      β.withBuys (pre ++ o.closed reason :: rest) := by
  have htotal : buySizes (pre ++ o :: rest) - o.size =
      buySizes (pre ++ o.closed reason :: rest) := by
    simp [ho]
    omega
  simp only [closeBuy, withBuys, htotal]

theorem Formed.withBuys_self (h : β.Formed cfg token) : β.withBuys β.buys = β := by
  simp only [withBuys, ← h.totalBuy]

end Batch

namespace Market

variable {cfg : Config} {bonded : Denom → Prop} {m : Market} {token : Denom} {b : Bond}
  {β : Batch}

theorem bond_eq_ok (h : Table.get? m.store.bonds token = some b) : m.store.bond token = .ok b := by
  simp [Store.bond, Store.require, h]

theorem batch_eq_ok (h : Table.get? m.store.batches token = some β) :
    m.store.batch token = .ok β := by
  simp [Store.batch, Store.require, h]

theorem Held.prices_proper (h : Held cfg m token b β) (hs : m.ledger.Solvent) (hc : m.Current b β)
    (hpos : 0 < β.totalBuy + β.totalSell) : β.buyPrices.Proper ∧ β.sellPrices.Proper :=
  Bond.clearingPrices_proper h.formed.priceable (proper_reserveOf hs b).amountOf_nonneg
    h.supply_nonneg h.orders.totalBuy_nonneg h.orders.totalSell_nonneg h.sells_le (hc hpos)

theorem Held.prices_confined (h : Held cfg m token b β) (hs : m.ledger.Solvent)
    (hc : m.Current b β) (hpos : 0 < β.totalBuy + β.totalSell) :
    β.buyPrices.Confined b.reserveTokens ∧ β.sellPrices.Confined b.reserveTokens :=
  Bond.clearingPrices_confined h.formed.priceable (proper_reserveOf hs b).amountOf_nonneg
    h.orders.totalBuy_nonneg h.orders.totalSell_nonneg h.sells_le (hc hpos)

theorem Held.prices_inHatch (h : Held cfg m token b β) (hc : m.Current b β)
    (hhatch : b.inHatch = true) {p0 : Dec} (hp0 : b.parameters.value "p0" = .ok p0)
    (hpos : 0 < β.totalBuy + β.totalSell) :
    β.buyPrices = b.uniformAmount p0 ∧ β.sellPrices = b.uniformAmount p0 := by
  have hsell := (h.hatch hhatch).2
  have hprices := hc hpos
  rw [hsell, Bond.clearingPrices_inHatch h.formed hhatch hp0 (by omega)] at hprices
  simp only [Except.ok.injEq, ClearingPrices.mk.injEq] at hprices
  exact ⟨hprices.1.symm, hprices.2.symm⟩

/-- A swapper bond without supply has no buys and no sells in its batch: they would have prices. -/
theorem Current.total_eq_zero (h : m.Current b β) (hheld : Held cfg m token b β)
    (hswap : b.isSwapper = true) (hsupply : b.supply = 0) : β.totalBuy + β.totalSell = 0 := by
  have hbuy := hheld.orders.totalBuy_nonneg
  have hsell := hheld.orders.totalSell_nonneg
  by_contra hne
  obtain ⟨spot, hspot, -⟩ := Bond.clearingPrices_eq_ok (h (by omega))
  have := Bond.supply_pos_of_spotPrices hswap hspot
  omega

/-- In a hatch every buy can pay the prices of its batch. -/
theorem Hatching.affords (h : m.Hatching b β) (hheld : Held cfg m token b β) (hc : m.Current b β)
    (hhatch : b.inHatch = true) {o : BuyOrder} (ho : o ∈ β.buys) : b.Affords o β.buyPrices := by
  obtain ⟨p0, hp0, -⟩ := (hheld.formed.hatch (Bond.inHatch_isAugmented hhatch)).price
  have hpos := hheld.orders.total_pos_of_buy (List.mem_filter.2 ⟨ho, h.isOpen o ho⟩)
  rw [(hheld.prices_inHatch hc hhatch hp0 hpos).1]
  exact h.pays o ho p0 hp0

theorem flow_refund (cfg : Config) {c : Coins} (hc : c.Proper) (user : Account)
    (purpose : Purpose) (a : Account) (ha : a ≠ user) (d : Denom) :
    Move.flow a d (Move.transferIfAny purpose cfg.escrowAccount user c) =
      if a = cfg.escrowAccount then -c.amountOf d else 0 := by
  rw [Move.flow_transferIfAny hc, if_neg (Ne.symm ha)]
  simp only [eq_comm (a := cfg.escrowAccount)]
  split <;> omega

theorem Kept.closeBuy (hsep : cfg.Separate) (h : Kept cfg bonded m) {m' : Market}
    (hb : Table.get? m.store.bonds token = some b)
    (hβ : Table.get? m.store.batches token = some β) {pre rest : List BuyOrder} {o : BuyOrder}
    (hsplit : β.buys = pre ++ o :: rest)
    (ho : o.isOpen = true) {reason : String}
    (hpost : (m.withBatch token (β.closeBuy pre o rest reason)).Posted m'
      (fun a d => Move.flow a d
        (Move.transferIfAny .releaseEscrow cfg.escrowAccount o.address o.maxPrices))
      (fun _ => 0)) :
    Kept cfg bonded m' ∧ Apart token m m' ∧
      (∀ d, m'.balance (reserveAccountFor token) d = m.balance (reserveAccountFor token) d) ∧
      m'.store.lastBatches = m.store.lastBatches := by
  have hheld := h.held_of_get? hb hβ
  have hmem : o ∈ β.buys := hsplit ▸ by simp
  have hformed := hheld.orders.buys o hmem
  have hrefund := fun a ha d => flow_refund cfg hformed.maxPrices o.address .releaseEscrow a ha d
  -- The refund goes from escrow to a user and touches no reserve.
  have hreserve : ∀ u d, Move.flow (reserveAccountFor u) d
      (Move.transferIfAny .releaseEscrow cfg.escrowAccount o.address o.maxPrices) = 0 := by
    intro u d
    rw [hrefund _ (hformed.user.ne_reserve u).symm, if_neg (hsep.escrow_ne_reserve u).symm]
  have hapart : Apart token m m' := (apart_withBatch ..).trans
    (hpost.apart (fun u _ d => hreserve u d) fun _ _ => rfl)
  have hbalance : ∀ d, m'.balance (reserveAccountFor token) d =
      m.balance (reserveAccountFor token) d := by
    intro d
    rw [balance, hpost.balance, hreserve, add_zero]
    rfl
  have htotal : m'.ledger.totalSupply token = m.ledger.totalSupply token := by
    rw [hpost.total, add_zero]
    rfl
  have hb' : Table.get? m'.store.bonds token = some b := hpost.bond hb
  have hβ' : Table.get? m'.store.batches token = some (β.closeBuy pre o rest reason) := by
    rw [hpost.store]
    exact get?_withBatch ..
  have hlast : m'.store.lastBatches = m.store.lastBatches := by
    rw [hpost.store]
    rfl
  refine ⟨h.replace hapart hβ hb' hβ' ?_ hpost.solvent ?_, hapart, hbalance, hlast⟩
  · have hle := hheld.orders.size_le_totalBuy hmem ho
    have hsize := hformed.size_pos
    have htotals : (β.closeBuy pre o rest reason).totalBuy = β.totalBuy - o.size := rfl
    refine Held.congr (m := m) { hheld with
      orders := hheld.orders.closeBuy hsplit ho reason
      buys_le := ?_
      room := fun hh => ?_
      settled := fun hs => ?_ } hbalance htotal
    · have := hheld.buys_le
      omega
    · obtain ⟨limit, hlimit, hroom⟩ := hheld.room hh
      exact ⟨limit, hlimit, by omega⟩
    · have := hheld.settled hs
      omega
  · intro d
    have hpledged := Batch.pledged_closeBuy hsplit ho reason d
    simp only [balance]
    rw [hpost.balance, hrefund _ hformed.user.ne_escrow.symm, if_pos rfl, ← hpledged,
      withBatch_ledger]
    omega

/-- How far the pass has come: the buys `done` have become `done'`, and `rest` are left. Outcomes
have been gathered for those that were cancelled. -/
structure Passing (cfg : Config) (bonded : Denom → Prop) (token : Denom) (b : Bond) (β : Batch)
    (m : Market) (done done' rest : List BuyOrder) (os : List Outcome) (m' : Market) : Prop where
  kept : Kept cfg bonded m'
  apart : Apart token m m'
  bond : Table.get? m'.store.bonds token = some b
  batch : Table.get? m'.store.batches token = some (β.withBuys (done' ++ rest))
  split : β.buys = done ++ rest
  passed : List.Forall₂ (b.Passed β.buyPrices) done done'
  reserve : ∀ d, m'.balance (reserveAccountFor token) d = m.balance (reserveAccountFor token) d
  last : m'.store.lastBatches = m.store.lastBatches
  untouched : os = [] → done' = done
  cancelled : os ≠ [] → 0 < β.totalBuy

section Passing

variable {m₀ : Market} {done done' rest : List BuyOrder} {o : BuyOrder} {os : List Outcome}

theorem Passing.keep (h : Passing cfg bonded token b β m₀ done done' (o :: rest) os m)
    (hpass : o.isOpen = true → b.Affords o β.buyPrices) :
    Passing cfg bonded token b β m₀ (done ++ [o]) (done' ++ [o]) rest (os ++ []) m :=
  { h with
    batch := by simpa using h.batch
    split := by simpa using h.split
    passed := List.rel_append h.passed (.cons (.kept hpass) .nil)
    untouched := fun hos => by rw [h.untouched (by simpa using hos)]
    cancelled := by simpa using h.cancelled }

theorem Passing.cancel (hsep : cfg.Separate)
    (h : Passing cfg bonded token b β m₀ done done' (o :: rest) os m) {m' : Market}
    (hopen : o.isOpen = true) (hafford : ¬ b.Affords o β.buyPrices) (hpos : 0 < β.totalBuy)
    {reason : String} {out : Outcome}
    (hpost : (m.withBatch token
      ((β.withBuys (done' ++ o :: rest)).closeBuy done' o rest reason)).Posted m'
        (fun a d => Move.flow a d
          (Move.transferIfAny .releaseEscrow cfg.escrowAccount o.address o.maxPrices))
        (fun _ => 0)) :
    Passing cfg bonded token b β m₀ (done ++ [o]) (done' ++ [o.closed reason]) rest
      (os ++ [out]) m' := by
  obtain ⟨hkept, hapart, hreserve, hlast⟩ :=
    h.kept.closeBuy hsep h.bond h.batch rfl hopen hpost
  rw [Batch.closeBuy_withBuys hopen] at hpost
  refine ⟨hkept, h.apart.trans hapart, ?_, ?_, ?_, ?_, ?_, hlast.trans h.last, ?_, ?_⟩
  · exact hpost.bond h.bond
  · rw [hpost.store, List.append_assoc]
    exact get?_withBatch ..
  · rw [h.split, List.append_assoc]
    rfl
  · exact List.rel_append h.passed (.cons (.cancelled hopen hafford) .nil)
  · exact fun d => (hreserve d).trans (h.reserve d)
  · exact fun hos => absurd hos (by simp)
  · exact fun _ => hpos

theorem cancelIfUnaffordable_sat (hsep : cfg.Separate)
    (hheld : Held cfg m₀ token b β)
    (hprices : 0 < β.totalBuy + β.totalSell → β.buyPrices.Proper)
    (h : Passing cfg bonded token b β m₀ done done' (o :: rest) os m) :
    (cancelIfUnaffordable cfg token done.length).Sat m
      (fun out m' => ∃ o', Passing cfg bonded token b β m₀ (done ++ [o]) (done' ++ [o']) rest
        (os ++ out.toList) m')
      (fun _ _ => False) := by
  have hlength : done.length = done'.length := h.passed.length_eq
  have horder : Batch.orderAt (β.withBuys (done' ++ o :: rest)).buys done.length = .ok o := by
    simp [Batch.orderAt, Batch.withBuys, hlength]
  have hmem : o ∈ β.buys := h.split ▸ by simp
  have hformed := hheld.orders.buys o hmem
  simp only [cancelIfUnaffordable, Action.sat_bind, Action.sat_get,
    Action.sat_lift_of_ok (bond_eq_ok h.bond), Action.sat_lift_of_ok (batch_eq_ok h.batch),
    Action.sat_lift_of_ok horder]
  cases hopen : o.isOpen with
  | false =>
      simp only [Bool.not_false, if_true, Action.sat_pure]
      exact ⟨o, h.keep fun ht => by cases hopen.symm.trans ht⟩
  | true =>
      have hpos : 0 < β.totalBuy :=
        hformed.size_pos.trans_le (hheld.orders.size_le_totalBuy hmem hopen)
      have hproper := hprices (by have := hheld.orders.totalSell_nonneg; omega)
      have hsame : (β.withBuys (done' ++ o :: rest)).buyPrices = β.buyPrices := rfl
      simp only [Bool.not_true, if_false, Bool.false_eq_true, hsame]
      obtain ⟨hafford, hok⟩ | ⟨hafford, detail, herror⟩ := Bond.checkAffordable_spec
        hheld.formed.txFee hproper hformed.size_pos.le hformed.maxPrices
      · simp only [hok, Action.sat_pure]
        exact ⟨o, h.keep fun _ => hafford⟩
      · set reason := (Error.rejected .maxPriceExceeded detail).message with hreason
        have hcancel := hlength ▸
          Batch.cancelBuy_eq (β := β.withBuys (done' ++ o :: rest)) rfl hopen reason
        simp only [herror, Error.isRejection, Bool.not_true, if_false, Bool.false_eq_true,
          ← hreason, Action.sat_bind, Action.sat_lift_of_ok hcancel, setBatch, Action.sat_modify]
        have hescrow : ∀ d, o.maxPrices.amountOf d ≤ m.balance cfg.escrowAccount d := fun d =>
          ((h.kept.held_of_get? h.bond h.batch).orders.maxPrices_le_pledged
            (by simp [Batch.withBuys]) hopen d).trans (h.kept.pledged_le h.bond h.batch d)
        apply (transferIfAny_sat (m := m.withBatch token _) h.kept.refusals h.kept.solvent
          hformed.maxPrices .releaseEscrow o.address hescrow).of_total
        intro _ m' hpost
        exact ⟨o.closed reason, h.cancel hsep hopen hafford hpos hpost⟩

end Passing

/-- What the pass leaves: the batch `β'`, whose buys are those of `β`, each kept or cancelled at the
prices of `β`, and whose prices are those of its own totals. -/
structure Swept (cfg : Config) (bonded : Denom → Prop) (token : Denom) (b : Bond) (β β' : Batch)
    (m m' : Market) : Prop where
  kept : Kept cfg bonded m'
  apart : Apart token m m'
  bond : Table.get? m'.store.bonds token = some b
  batch : Table.get? m'.store.batches token = some β'
  same : β' = { β.withBuys β'.buys with buyPrices := β'.buyPrices, sellPrices := β'.sellPrices }
  passed : List.Forall₂ (b.Passed β.buyPrices) β.buys β'.buys
  reserve : ∀ d, m'.balance (reserveAccountFor token) d = m.balance (reserveAccountFor token) d
  last : m'.store.lastBatches = m.store.lastBatches
  current : m'.Current b β'

theorem cancelUnaffordableBuys_sat (hsep : cfg.Separate) (h : Kept cfg bonded m)
    (hb : Table.get? m.store.bonds token = some b)
    (hβ : Table.get? m.store.batches token = some β) (hc : m.Current b β) :
    (cancelUnaffordableBuys cfg token).Sat m
      (fun os m' => ∃ buys, Passing cfg bonded token b β m β.buys buys [] os m')
      (fun _ _ => False) := by
  have hheld := h.held_of_get? hb hβ
  simp only [cancelUnaffordableBuys, Action.sat_bind, Action.sat_get,
    Action.sat_lift_of_ok (bond_eq_ok hb), Action.sat_lift_of_ok (batch_eq_ok hβ)]
  -- The places that are left are those of the buys that are left.
  refine (Action.sat_gather
    (I := fun is os m' => ∃ done done' rest, is = List.range' done.length rest.length ∧
      Passing cfg bonded token b β m done done' rest os m')
    ?_ (List.range β.buys.length) ?_).of_total fun os m' hI => ?_
  · rintro i is os m' ⟨done, done', rest, his, hp⟩
    cases rest with
    | nil => cases his
    | cons o rest =>
        rw [List.length_cons, List.range'_succ, List.cons.injEq] at his
        obtain ⟨rfl, rfl⟩ := his
        have hprices := fun hpos => (hheld.prices_proper h.solvent hc hpos).1
        apply (cancelIfUnaffordable_sat hsep hheld hprices hp).of_total
        intro out m'' hp'
        obtain ⟨o', hp'⟩ := hp'
        exact ⟨_, _, _, by simp, hp'⟩
  · refine ⟨[], [], β.buys, by simp [List.range_eq_range'], ?_⟩
    exact {
      kept := h, apart := .refl token m, bond := hb, split := rfl, passed := .nil
      batch := by rw [List.nil_append, hheld.orders.withBuys_self, hβ]
      reserve := fun _ => rfl, last := rfl, untouched := fun _ => rfl
      cancelled := fun hne => absurd rfl hne }
  · obtain ⟨done, done', rest, his, hp⟩ := hI
    obtain rfl : rest = [] := List.length_eq_zero_iff.1 (List.range'_eq_nil_iff.1 his.symm)
    obtain rfl : done = β.buys := by simpa using hp.split.symm
    exact ⟨done', hp⟩

theorem reprice_sat (h : Kept cfg bonded m) (hb : Table.get? m.store.bonds token = some b)
    (hβ : Table.get? m.store.batches token = some β) {spot : DecCoins}
    (hspot : b.spotPrices (m.reserveOf b) = .ok spot) :
    (reprice token).Sat m
      (fun _ m' => ∃ p, b.clearingPrices (m.reserveOf b) β.totalBuy β.totalSell = .ok p ∧
        m' = m.withBatch token { β with buyPrices := p.buy, sellPrices := p.sell })
      (fun _ _ => False) := by
  have hheld := h.held_of_get? hb hβ
  obtain ⟨p, hp, -⟩ := Bond.exists_clearingPrices hheld.formed.priceable
    (proper_reserveOf h.solvent b).amountOf_nonneg hheld.supply_nonneg hspot
    hheld.orders.totalBuy_nonneg hheld.sells_le hheld.orders.totalSell_nonneg
    fun hh => (hheld.hatch hh).2
  have hprices : m.batchPrices token β = .ok p := by
    simp only [batchPrices, bond_eq_ok hb, Result.ok_bind, hp]
  simp only [reprice, Action.sat_bind, Action.sat_get, Action.sat_lift_of_ok (batch_eq_ok hβ),
    hprices, setBatch, Action.sat_modify]
  exact ⟨p, hp, rfl⟩

/-- New prices leave the books in order. -/
theorem Kept.withPrices (h : Kept cfg bonded m) (hb : Table.get? m.store.bonds token = some b)
    (hβ : Table.get? m.store.batches token = some β) (buyPrices sellPrices : DecCoins) :
    Kept cfg bonded (m.withBatch token { β with buyPrices, sellPrices }) := by
  have hheld := h.held_of_get? hb hβ
  refine h.replace (apart_withBatch ..) hβ hb (get?_withBatch ..) ?_ h.solvent fun _ => rfl
  exact Held.congr (m := m) { hheld with orders := { hheld.orders with } } (fun _ => rfl) rfl

theorem cancelUnfulfillable_sat (hsep : cfg.Separate) (h : Kept cfg bonded m)
    (hb : Table.get? m.store.bonds token = some b)
    (hβ : Table.get? m.store.batches token = some β) (hc : m.Current b β) :
    (cancelUnfulfillable cfg token).Sat m
      (fun _ m' => ∃ β', Swept cfg bonded token b β β' m m') (fun _ _ => False) := by
  have hheld := h.held_of_get? hb hβ
  rw [cancelUnfulfillable, Action.sat_bind]
  apply (cancelUnaffordableBuys_sat hsep h hb hβ hc).of_total
  intro os m₁ hp
  obtain ⟨buys, hp⟩ := hp
  have haddress := hheld.formed.address
  rw [Action.sat_ite]
  refine ⟨fun hos => ?_, fun hos => ?_⟩
  · obtain rfl := hp.untouched hos
    rw [Action.sat_pure]
    refine ⟨β, { hp with
      batch := ?_, same := ?_, current := hc.congr (haddress ▸ hp.reserve) }⟩
    · rw [hp.batch, List.append_nil, hheld.orders.withBuys_self]
    · rw [hheld.orders.withBuys_self]
  · have hreserve : m₁.reserveOf b = m.reserveOf b := reserveOf_congr (haddress ▸ hp.reserve)
    have hpos := hp.cancelled hos
    obtain ⟨spot, hspot, -⟩ := Bond.clearingPrices_eq_ok (hc (by
      have := hheld.orders.totalSell_nonneg
      omega))
    rw [Action.sat_bind]
    apply (reprice_sat hp.kept hp.bond hp.batch (hreserve ▸ hspot)).of_total
    intro _ m' hm'
    obtain ⟨p, hprices, rfl⟩ := hm'
    rw [List.append_nil] at hprices
    refine ⟨{ β.withBuys buys with buyPrices := p.buy, sellPrices := p.sell },
      { kept := ?_, apart := hp.apart.trans (apart_withBatch ..), bond := hp.bond
        batch := ?_, same := rfl, passed := hp.passed, reserve := hp.reserve, last := hp.last
        current := fun _ => hprices }⟩
    · simpa using hp.kept.withPrices hp.bond hp.batch p.buy p.sell
    · simp

/-- A pass in which every open buy can pay changes nothing at all. -/
theorem cancelUnfulfillable_eq_nil (hb : Table.get? m.store.bonds token = some b)
    (hβ : Table.get? m.store.batches token = some β)
    (hpass : ∀ o ∈ β.buys, o.isOpen = true → b.checkAffordable o β.buyPrices = .ok ()) :
    cancelUnfulfillable cfg token m = .ok [] m := by
  have hsat : (cancelUnfulfillable cfg token).Sat m (fun os m' => os = [] ∧ m' = m)
      (fun _ _ => False) := by
    simp only [cancelUnfulfillable, cancelUnaffordableBuys, Action.sat_bind, Action.sat_get,
      Action.sat_lift_of_ok (bond_eq_ok hb), Action.sat_lift_of_ok (batch_eq_ok hβ)]
    refine (Action.sat_gather
      (I := fun is os m' => (os = [] ∧ m' = m) ∧ ∀ i ∈ is, i < β.buys.length)
      (fun i is os m' hI => ?_) _ ⟨⟨rfl, rfl⟩, fun i => List.mem_range.1⟩).of_total
      fun os m' hI => ?_
    · obtain ⟨⟨rfl, rfl⟩, hi⟩ := hI
      have hlt := hi i List.mem_cons_self
      have horder : Batch.orderAt β.buys i = .ok β.buys[i] := by simp [Batch.orderAt, hlt]
      have hrest : ∀ j ∈ is, j < β.buys.length := fun j hj => hi j (List.mem_cons_of_mem _ hj)
      simp only [cancelIfUnaffordable, Action.sat_bind, Action.sat_get,
        Action.sat_lift_of_ok (bond_eq_ok hb), Action.sat_lift_of_ok (batch_eq_ok hβ),
        Action.sat_lift_of_ok horder]
      cases hopen : β.buys[i].isOpen with
      | false => exact ⟨⟨rfl, rfl⟩, hrest⟩
      | true =>
          simp only [Bool.not_true, Bool.false_eq_true, if_false,
            hpass _ (List.getElem_mem hlt) hopen]
          exact ⟨⟨rfl, rfl⟩, hrest⟩
    · obtain ⟨⟨rfl, rfl⟩, -⟩ := hI
      simp
  obtain ⟨_, _, hrun, rfl, rfl⟩ := hsat.exists_ok
  exact hrun

theorem cancelUnfulfillable_eq_self {m' : Market}
    (hrun : cancelUnfulfillable cfg token m = .ok [] m') : m' = m := by
  have hbuy (i : Nat) (m : Market) : (cancelIfUnaffordable cfg token i).Sat m
      (fun out m' => out = none → m' = m) (fun _ _ => True) := by
    simp only [cancelIfUnaffordable, Action.sat_bind, Action.sat_get, Action.sat_lift]
    refine ⟨fun b _ => ⟨fun β _ => ⟨fun o _ => ?_, fun _ _ => trivial⟩, fun _ _ => trivial⟩,
      fun _ _ => trivial⟩
    rw [Action.sat_ite]
    refine ⟨fun _ _ => rfl, fun _ => ?_⟩
    split
    · exact fun _ => rfl
    · rw [Action.sat_ite]
      refine ⟨fun _ => trivial, fun _ => ?_⟩
      simp only [Action.sat_bind, Action.sat_lift, setBatch, Action.sat_modify]
      refine ⟨fun _ _ => ?_, fun _ _ => trivial⟩
      exact (Action.Sat.trivial _ _).imp fun _ _ _ hnone => by cases hnone
  have hsat : (cancelUnfulfillable cfg token).Sat m (fun os m' => os = [] → m' = m)
      (fun _ _ => True) := by
    simp only [cancelUnfulfillable, cancelUnaffordableBuys, Action.sat_bind, Action.sat_get,
      Action.sat_lift]
    refine ⟨fun _ _ => ⟨fun β _ => ?_, fun _ _ => trivial⟩, fun _ _ => trivial⟩
    refine (Action.sat_gather (I := fun _ os m' => os = [] → m' = m) (fun i is os m₁ hI => ?_) _
      fun _ => rfl).imp fun os m₁ hI => ?_
    · apply (hbuy i m₁).imp
      intro out m₂ hout hos
      obtain ⟨hos, hnone⟩ := List.append_eq_nil_iff.1 hos
      rw [hout (by simpa using hnone), hI hos]
    · rw [Action.sat_ite]
      refine ⟨fun hos _ => hI hos, fun hos => ?_⟩
      rw [Action.sat_bind]
      exact (Action.Sat.trivial _ _).imp fun _ _ _ => fun hnil => absurd hnil hos
  exact hsat.of_ok hrun rfl

theorem Swept.hatching {m' : Market} {β' : Batch} (h : Kept cfg bonded m)
    (hb : Table.get? m.store.bonds token = some b)
    (hβ : Table.get? m.store.batches token = some β) (hc : m.Current b β)
    (hswept : Swept cfg bonded token b β β' m m') (hhatch : b.inHatch = true)
    (hhatching : m.Hatching b β) : m'.Hatching b β' := by
  have hheld := h.held_of_get? hb hβ
  have hsame : β'.buys = β.buys := Bond.eq_of_passed hswept.passed fun o ho _ =>
    hhatching.affords hheld hc hhatch ho
  exact {
    raised := hhatching.raised.congr (hheld.formed.address ▸ hswept.reserve)
    unsold := hswept.last ▸ hhatching.unsold
    isOpen := hsame ▸ hhatching.isOpen
    pays := hsame ▸ hhatching.pays }

theorem Swept.sound {fills : Denom → Nat} {m' : Market} {β' : Batch}
    (h : Sound cfg bonded fills m) (hb : Table.get? m.store.bonds token = some b)
    (hβ : Table.get? m.store.batches token = some β)
    (hswept : Swept cfg bonded token b β β' m m') : Sound cfg bonded fills m' := by
  have haddress := (hswept.kept.held_of_get? hswept.bond hswept.batch).formed.address
  have hswaps : β'.swaps = β.swaps := by
    rw [hswept.same]
    rfl
  refine h.replace hswept.apart hswept.kept (fun _ _ => rfl) hswept.bond hswept.batch hswept.current
    (fun hne => h.trades token b β hb hβ (hswaps ▸ hne)) (fun hhatch =>
      hswept.hatching h.kept hb hβ (h.current token b β hb hβ) hhatch
        (h.hatching token b β hb hβ hhatch)) ?_ ?_
  · exact (h.backed token b hb).congr (haddress ▸ hswept.reserve)
  · exact (h.stocked token b hb).congr (haddress ▸ hswept.reserve)

end Market
end BondMarket
