import BondMarket.Market.Admission
import BondMarket.Proofs.Backing

/-!
Admitting orders. What decides on an order leaves the market alone, and so does a first call of the
ledger that is turned down. An order that is admitted brings its coins with it: a buy or a swap
puts into escrow what its batch then pledges, a sell burns what the batch then takes out of the
supply. The market stays sound, and from the first call on only a fatal error stops it.
-/

namespace BondMarket

theorem Bond.mem_iff_of_hasReserveTokens {b : Bond} {denoms : List Denom}
    (h : b.hasReserveTokens denoms = true) {d : Denom} : d ∈ denoms ↔ d ∈ b.reserveTokens := by
  simp only [hasReserveTokens, Bool.and_eq_true, beq_iff_eq, List.all_eq_true,
    List.contains_iff_mem] at h
  exact ⟨h.1.2 d, h.2 d⟩

theorem Bond.nodup_of_hasReserveTokens {b : Bond} {token : Denom} (hf : b.Formed token)
    {denoms : List Denom} (h : b.hasReserveTokens denoms = true) : denoms.Nodup := by
  simp only [hasReserveTokens, Bool.and_eq_true, beq_iff_eq, List.all_eq_true,
    List.contains_iff_mem] at h
  obtain ⟨⟨hlength, -⟩, hall⟩ := h
  have hperm := (List.subperm_of_subset hf.distinct hall).perm_of_length_le hlength.le
  exact hperm.nodup_iff.1 hf.distinct

/-- An order is taken for a bond that has not been settled, and leaves it in its phase. -/
def Bond.Traded (b b' : Bond) : Prop := b.phase ≠ .settled ∧ b'.phase = b.phase

namespace Batch

variable {cfg : Config} {token : Denom} {β : Batch}

theorem Formed.addBuy (h : β.Formed cfg token) {o : BuyOrder} (ho : o.Formed cfg token)
    (hopen : o.isOpen = true) (buyPrices sellPrices : DecCoins) :
    (β.addBuy o buyPrices sellPrices).Formed cfg token where
  buys o' ho' := by
    rcases List.mem_append.1 ho' with ho' | ho'
    · exact h.buys o' ho'
    · exact List.mem_singleton.1 ho' ▸ ho
  sells := h.sells
  swaps := h.swaps
  totalBuy := by
    show β.totalBuy + o.size = buySizes (β.buys ++ [o])
    simp [h.totalBuy, hopen]
  totalSell := h.totalSell

theorem Formed.addSell (h : β.Formed cfg token) {o : SellOrder} (ho : o.Formed cfg)
    (buyPrices sellPrices : DecCoins) :
    (β.addSell o buyPrices sellPrices).Formed cfg token where
  buys := h.buys
  sells o' ho' := by
    rcases List.mem_append.1 ho' with ho' | ho'
    · exact h.sells o' ho'
    · exact List.mem_singleton.1 ho' ▸ ho
  swaps := h.swaps
  totalBuy := h.totalBuy
  totalSell := by
    show β.totalSell + o.size = sellSizes (β.sells ++ [o])
    simp [h.totalSell, ho.isOpen]

theorem Formed.addSwap (h : β.Formed cfg token) {o : SwapOrder} (ho : o.toOrder.Formed cfg) :
    (β.addSwap o).Formed cfg token where
  buys := h.buys
  sells := h.sells
  swaps o' ho' := by
    rcases List.mem_append.1 ho' with ho' | ho'
    · exact h.swaps o' ho'
    · exact List.mem_singleton.1 ho' ▸ ho
  totalBuy := h.totalBuy
  totalSell := h.totalSell

theorem pledged_addBuy {o : BuyOrder} (hopen : o.isOpen = true) (buyPrices sellPrices : DecCoins)
    (d : Denom) : (β.addBuy o buyPrices sellPrices).pledged d =
      o.maxPrices.amountOf d + β.pledged d := by
  simp only [pledged, addBuy, buyPledges, openSum_append, openSum_cons, openSum_nil, hopen, if_true]
  omega

theorem pledged_addSwap {o : SwapOrder} (hopen : o.isOpen = true) (d : Denom) :
    (β.addSwap o).pledged d = o.amount.toCoins.amountOf d + β.pledged d := by
  simp only [pledged, addSwap, swapPledges, openSum_append, openSum_cons, openSum_nil, hopen,
    if_true]
  omega

end Batch

namespace Market

variable {cfg : Config} {bonded : Denom → Prop} {fills : Denom → Nat} {m m₁ : Market}
  {token : Denom} {b : Bond} {β β' : Batch}

theorem bondFor_eq_ok (h : m.bondFor token = .ok b) : Table.get? m.store.bonds token = some b := by
  unfold bondFor Store.bond? at h
  split at h
  · cases h
    assumption
  · cases h

/-- What is known of a request that fails: the market is as it was, or the error is fatal. -/
def Refused (m : Market) (e : Error) (m' : Market) : Prop :=
  (m' = m ∨ e.isFatal = true) ∧ Spared m m'

theorem Refused.same (e : Error) : Refused m e m := ⟨.inl rfl, fun _ _ => rfl⟩

theorem decide_sat {α β : Type} {x : Result α} {f : α → Action β} {Q : β → Market → Prop}
    (h : ∀ a, x = .ok a → (f a).Sat m Q (Refused m)) :
    ((liftM x : Action α) >>= f).Sat m Q (Refused m) := by
  rw [Action.sat_bind, Action.sat_lift]
  exact ⟨h, fun e _ => .same e⟩

theorem exists_decided {α β : Type} {x : Market → Result α} {f : α → Action β} {a' : β}
    {m' : Market} (h : (get >>= fun m => (liftM (x m) : Action α) >>= f) m = .ok a' m') :
    ∃ a, x m = .ok a ∧ f a m = .ok a' m' := by
  obtain ⟨_, _, hget, h⟩ := Action.bind_eq_ok.1 h
  cases hget
  exact Action.lift_bind_eq_ok.1 h

theorem first_sat {α : Type} (h : Sound cfg bonded fills m) {c : LedgerCall} (hc : c.Proper)
    {f : Unit → Action α} {Q : α → Market → Prop}
    (hf : ∀ m₁, m.Posted m₁ (fun a d => c.flow a d) (fun d => c.made d) →
      (f ()).Sat m₁ Q (Refused m)) :
    (call c >>= f).Sat m Q (Refused m) := by
  rw [Action.sat_bind]
  refine (call_sat h.kept.refusals h.kept.solvent fun _ => hc.of_ok).mono (fun _ m₁ => hf m₁) ?_
  rintro e m' ⟨rfl, -⟩
  exact .same e

/-- A request has worked on the bond that it names, and on no other: its record has changed so. -/
structure Worked (token : Denom) (R : Bond → Bond → Prop) (m m' : Market) : Prop where
  apart : Apart token m m'
  bond : ∃ b b', Table.get? m.store.bonds token = some b ∧
    Table.get? m'.store.bonds token = some b' ∧ R b b'

theorem Worked.spared {R : Bond → Bond → Prop} {m' : Market} (h : Worked token R m m') :
    Spared m m' := by
  obtain ⟨_, _, hb, -⟩ := h.bond
  exact h.apart.spared hb

theorem Sound.admit (h : Sound cfg bonded fills m) (β' : Batch)
    (hb : Table.get? m.store.bonds token = some b) (hphase : b.phase ≠ .settled)
    (hβ : Table.get? m.store.batches token = some β) {flow : Account → Denom → Int}
    {made : Denom → Int} (hpost : m.Posted m₁ flow made)
    (hflow : ∀ u d, flow (reserveAccountFor u) d = 0) (hmade : ∀ d ≠ token, made d = 0)
    (hheld : (∀ d, m₁.balance (reserveAccountFor token) d =
        m.balance (reserveAccountFor token) d) →
      m₁.ledger.totalSupply token = m.ledger.totalSupply token + made token →
      Held cfg m₁ token b β' ∧ m₁.Current b β')
    (htrades : Trades b β') (hhatching : b.inHatch = true → m.Hatching b β')
    (hescrow : ∀ d, flow cfg.escrowAccount d + β.pledged d = β'.pledged d) :
    Sound cfg bonded fills (m₁.withBatch token β') ∧
      Worked token Bond.Traded m (m₁.withBatch token β') := by
  have hapart : Apart token m (m₁.withBatch token β') :=
    (hpost.apart (fun u _ d => hflow u d) hmade).trans (apart_withBatch ..)
  have hbalance (u d) : m₁.balance (reserveAccountFor u) d =
      m.balance (reserveAccountFor u) d := by
    rw [balance, hpost.balance, hflow, add_zero]
  obtain ⟨hheld, hc⟩ := hheld (hbalance token) (hpost.total token)
  have hb₁ : Table.get? (m₁.withBatch token β').store.bonds token = some b := by
    rw [withBatch_bonds, hpost.store]
    exact hb
  have haddress := hheld.formed.address
  refine ⟨h.replace hapart ?_ (fun _ _ => rfl) hb₁ (get?_withBatch ..) hc htrades
    (fun hhatch => (hhatching hhatch).congr (haddress ▸ hbalance token) ?_) ?_ ?_,
    hapart, b, b, hb, hb₁, hphase, rfl⟩
  · refine h.kept.replace hapart hβ hb₁ (get?_withBatch ..) (hheld.congr (fun _ => rfl) rfl)
      hpost.solvent fun d => ?_
    have := hescrow d
    show m₁.ledger.balanceOf cfg.escrowAccount d + _ = m.ledger.balanceOf cfg.escrowAccount d + _
    rw [hpost.balance]
    omega
  · rw [show (m₁.withBatch token β').store.lastBatches = m₁.store.lastBatches from rfl, hpost.store]
  · exact (h.backed token b hb).congr (haddress ▸ hbalance token)
  · exact (h.stocked token b hb).congr (haddress ▸ hbalance token)

/-! ### Swaps -/

theorem decideSwap_eq_ok {r : SwapRequest} {o : SwapOrder} (h : m.decideSwap r = .ok o) :
    (∃ b, Table.get? m.store.bonds r.bondToken = some b ∧ b.supply ≠ 0 ∧ b.phase ≠ .settled ∧
        b.isSwapper = true) ∧
      o.address = r.swapper ∧ o.amount = r.source ∧ o.isOpen = true ∧ 0 < o.size := by
  simp only [decideSwap, Result.bind_eq_ok] at h
  obtain ⟨_, hcheck, b, hb, _, hswap, _, htrading, _, -, _, -, _, hsupply, ho⟩ := h
  simp only [SwapRequest.check, Result.bind_eq_ok] at hcheck
  obtain ⟨_, -, _, -, _, -, _, -, _, -, hpos⟩ := hcheck
  cases ho
  exact ⟨⟨b, bondFor_eq_ok hb, rejectIf_eq_ok_iff.1 hsupply, rejectIf_eq_ok_iff.1 htrading,
    by simpa using rejectIf_eq_ok_iff.1 hswap⟩, rfl, rfl, rfl,
    not_le.1 (rejectIf_eq_ok_iff.1 hpos)⟩

theorem submitSwap_sat (hsep : cfg.Separate) (h : Sound cfg bonded fills m) (r : SwapRequest)
    (hr : cfg.IsUser r.swapper) :
    (submitSwap cfg r).Sat m
      (fun _ m' => Sound cfg bonded fills m' ∧ Worked r.bondToken Bond.Traded m m')
      (Refused m) := by
  rw [submitSwap, Action.sat_bind, Action.sat_get]
  refine decide_sat fun o ho => ?_
  obtain ⟨⟨b, hb, htrades⟩, haddress, hamount, hopen, hsize⟩ := decideSwap_eq_ok ho
  obtain ⟨-, β, hβ, hheld⟩ := h.kept.held _ b hb
  have hsource := Coin.proper_toCoins r.source
  refine first_sat h (c := .transfer r.swapper cfg.escrowAccount r.source.toCoins.entries)
    hsource.ofEntries_entries fun m₁ hpost => ?_
  have hβ₁ : Table.get? m₁.store.batches r.bondToken = some β := hpost.batch hβ
  simp only [Action.sat_bind, Action.sat_get, Action.sat_lift_of_ok (batch_eq_ok hβ₁), setBatch,
    Action.sat_modify, Action.sat_pure]
  exact h.admit (β.addSwap o) hb htrades.2.1 hβ hpost
    (fun u d => by simp [LedgerCall.flow, hsep.escrow_ne_reserve, hr.ne_reserve])
    (fun _ _ => rfl)
    (fun hreserve htotal => ⟨{ hheld.congr hreserve (htotal.trans (add_zero _)) with
      orders := hheld.orders.addSwap ⟨haddress ▸ hr, hsize, hopen⟩ },
      (h.current _ b β hb hβ).congr (hheld.formed.address ▸ hreserve)⟩)
    (fun _ => htrades)
    (fun hhatch => { h.hatching _ b β hb hβ hhatch with })
    (fun d => by
      simp [LedgerCall.flow, hr.ne_escrow, CoinEntries.amountOf_entries hsource,
        Batch.pledged_addSwap hopen, hamount])

/-! ### Sells -/

theorem pricesWithSell_eq_ok (hb : Table.get? m.store.bonds token = some b)
    (hβ : Table.get? m.store.batches token = some β) {o : SellOrder} {p : ClearingPrices}
    (h : m.pricesWithSell token o = .ok p) :
    β.totalSell + o.size ≤ b.supply ∧
      b.clearingPrices (m.reserveOf b) β.totalBuy (β.totalSell + o.size) = .ok p := by
  simp only [pricesWithSell, bond_eq_ok hb, batch_eq_ok hβ, Store.supplyWithoutSells,
    Result.ok_bind, Result.pure_eq_ok, Result.bind_eq_ok] at h
  obtain ⟨_, hsupply, hp⟩ := h
  have := not_lt.1 (rejectIf_eq_ok_iff.1 hsupply)
  exact ⟨by omega, hp⟩

theorem decideSell_eq_ok {r : SellRequest} {o : SellOrder} {p : ClearingPrices}
    (h : m.decideSell r = .ok (o, p)) :
    (∃ b, Table.get? m.store.bonds r.amount.denom = some b ∧ b.phase ≠ .settled ∧
        b.allowSells = true) ∧
      o = { address := r.seller, amount := r.amount } ∧ 0 < o.size ∧
      m.pricesWithSell r.amount.denom o = .ok p := by
  simp only [decideSell, Result.bind_eq_ok] at h
  obtain ⟨_, hcheck, b, hb, _, htrading, _, hallow, _, -, _, -, p', hp, ho⟩ := h
  simp only [SellRequest.check, Result.bind_eq_ok] at hcheck
  obtain ⟨_, -, hpos⟩ := hcheck
  cases ho
  exact ⟨⟨b, bondFor_eq_ok hb, rejectIf_eq_ok_iff.1 htrading,
    by simpa using rejectIf_eq_ok_iff.1 hallow⟩, rfl, not_le.1 (rejectIf_eq_ok_iff.1 hpos), hp⟩

theorem Held.addSell (h : Held cfg m token b β) {o : SellOrder} (ho : o.Formed cfg)
    (p : ClearingPrices) (hphase : b.phase ≠ .settled)
    (hallow : b.allowSells = true) (hle : β.totalSell + o.size ≤ b.supply)
    (hreserve : ∀ d, m₁.balance (reserveAccountFor token) d =
      m.balance (reserveAccountFor token) d)
    (htotal : m₁.ledger.totalSupply token = m.ledger.totalSupply token - o.size) :
    Held cfg m₁ token b (β.addSell o p.buy p.sell) where
  formed := h.formed
  feeUser := h.feeUser
  orders := h.orders.addSell ho _ _
  supply_nonneg := h.supply_nonneg
  sells_le := hle
  buys_le := h.buys_le
  family := h.family
  hatch hh := by
    have := (h.hatch hh).1
    cases hallow.symm.trans this
  room := h.room
  settled hs := absurd hs hphase
  minted := by
    rw [htotal, h.minted]
    show _ = b.supply - (β.totalSell + o.size)
    omega
  synced := by
    have hsame : m₁.reserveOf b = m.reserveOf b := reserveOf_congr (h.formed.address ▸ hreserve)
    rw [h.synced, hsame]

theorem submitSell_sat (hsep : cfg.Separate) (h : Sound cfg bonded fills m) (r : SellRequest)
    (hr : cfg.IsUser r.seller) :
    (submitSell cfg r).Sat m
      (fun _ m' => Sound cfg bonded fills m' ∧ Worked r.amount.denom Bond.Traded m m')
      (Refused m) := by
  rw [submitSell, Action.sat_bind, Action.sat_get]
  refine decide_sat fun op hop => ?_
  obtain ⟨⟨b, hb, hphase, hallow⟩, ho, hsize, hp⟩ := decideSell_eq_ok (o := op.1) (p := op.2) hop
  obtain ⟨-, β, hβ, hheld⟩ := h.kept.held _ b hb
  obtain ⟨hle, hprices⟩ := pricesWithSell_eq_ok hb hβ hp
  have hsold := Coin.proper_toCoins r.amount
  have hopen : op.1.isOpen = true := by
    rw [ho]
    rfl
  have hamount (d : Denom) : CoinEntries.amountOf r.amount.toCoins.entries d =
      if r.amount.denom = d then op.1.size else 0 := by
    rw [CoinEntries.amountOf_entries hsold, Coin.amountOf_toCoins, ho]
    rfl
  -- The sold tokens pass through the minting account and are burned there, so that of the whole
  -- sell only their total is left to be seen.
  refine first_sat h (c := .transfer r.seller cfg.mintBurnAccount r.amount.toCoins.entries)
    hsold.ofEntries_entries fun m₁ hpaid => ?_
  rw [Action.sat_bind]
  refine (carryOut_sat (v := ⟨.burnSold, .burn cfg.mintBurnAccount r.amount.toCoins.entries⟩)
    (hpaid.refusals.trans h.kept.refusals) hpaid.solvent hsold.ofEntries_entries).mono
    (fun _ m₂ hburned => ?_) ?_
  · have hpost := hpaid.trans hburned
    have hβ₂ : Table.get? m₂.store.batches r.amount.denom = some β := hpost.batch hβ
    simp only [Action.sat_bind, Action.sat_get, Action.sat_lift_of_ok (batch_eq_ok hβ₂), setBatch,
      Action.sat_modify, Action.sat_pure]
    have hflow (u d) : LedgerCall.flow (reserveAccountFor u) d
          (.transfer r.seller cfg.mintBurnAccount r.amount.toCoins.entries) +
        LedgerCall.flow (reserveAccountFor u) d
          (.burn cfg.mintBurnAccount r.amount.toCoins.entries) = 0 := by
      simp [LedgerCall.flow, hsep.mintBurn_ne_reserve, hr.ne_reserve]
    have hmade (d) : LedgerCall.made d
          (.transfer r.seller cfg.mintBurnAccount r.amount.toCoins.entries) +
        LedgerCall.made d (.burn cfg.mintBurnAccount r.amount.toCoins.entries) =
          if r.amount.denom = d then -op.1.size else 0 := by
      simp only [LedgerCall.made, hamount]
      split <;> omega
    exact h.admit (β.addSell op.1 op.2.buy op.2.sell) hb hphase hβ hpost hflow
      (fun d hd => (hmade d).trans (if_neg hd.symm))
      (fun hreserve htotal => ⟨hheld.addSell ⟨ho ▸ hr, hsize, hopen⟩ op.2 hphase hallow hle
        hreserve (htotal.trans (by rw [hmade, if_pos rfl]; rfl)), fun _ => by
          rw [reserveOf_congr (hheld.formed.address ▸ hreserve)]
          exact hprices⟩)
      (h.trades _ b β hb hβ) (fun hhatch => { h.hatching _ b β hb hβ hhatch with })
      (fun d => by
        simp [LedgerCall.flow, hr.ne_escrow, hsep.mintBurn_ne_escrow]
        rfl)
  · -- The tokens are paid in already: a failure from here on stops the market.
    rintro e m' ⟨rfl, hfailed, -⟩
    exact ⟨.inr hfailed.isFatal, fun d _ => hpaid.total d |>.trans (add_zero _)⟩

/-! ### Buys -/

/-- An order to buy that has passed the checks which need no prices. -/
structure Admissible (m : Market) (r : BuyRequest) (b : Bond) (o : BuyOrder) : Prop where
  bond : Table.get? m.store.bonds r.amount.denom = some b
  phase : b.phase ≠ .settled
  tokens : b.hasReserveTokens (Table.keys o.maxPrices) = true
  address : o.address = r.buyer
  amount : o.amount = r.amount
  isOpen : o.isOpen = true
  size_pos : 0 < o.size
  maxPrices : Coins.ofEntries r.maxPrices = .ok o.maxPrices

theorem Admissible.formed {r : BuyRequest} {o : BuyOrder} (h : m.Admissible r b o)
    (hf : b.Formed token) (hr : cfg.IsUser r.buyer) : o.Formed cfg r.amount.denom where
  user := h.address ▸ hr
  size_pos := h.size_pos
  denom := congrArg Coin.denom h.amount
  maxPrices := ⟨Bond.nodup_of_hasReserveTokens hf h.tokens,
    fun _ _ hn => Coins.nonneg_of_ofEntries h.maxPrices hn⟩

/-- What founds a pool is an amount of every reserve token, and of nothing else. -/
theorem Admissible.stocked {r : BuyRequest} {o : BuyOrder} {m' : Market} (h : m.Admissible r b o)
    (hproper : o.maxPrices.Proper) (hstocked : m.Stocked b) (hs : m.ledger.Solvent)
    (hpaid : ∀ d, m'.balance b.reserveAddress d =
      m.balance b.reserveAddress d + o.maxPrices.amountOf d) {supply : Int} {reserve : Coins} :
    m'.Stocked (b.marked supply reserve) where
  confined hphase d hd := by
    have hkeys : d ∉ Table.keys o.maxPrices :=
      fun hmem => hd ((Bond.mem_iff_of_hasReserveTokens h.tokens).1 hmem)
    exact (hpaid d).trans (by
      rw [hstocked.confined hphase d hd, Coins.amountOf_of_not_mem hkeys, add_zero])
  positive _ _ _ d hd := by
    have hkeys := (Bond.mem_iff_of_hasReserveTokens h.tokens).2 hd
    have hpos := Coins.amountOf_pos_of_ofEntries h.maxPrices hproper hkeys
    have hnonneg : 0 ≤ m.balance b.reserveAddress d := hs _ d
    show 0 < m'.balance b.reserveAddress d
    rw [hpaid]
    omega

/-- A buy founds the pool of a swapper bond without supply, with a payment inside the sanity band,
or joins the batch at the prices that include it. -/
theorem decideBuy_eq_ok {r : BuyRequest} {e : BuyEntry} (h : m.decideBuy r = .ok e) :
    ∃ b o, m.Admissible r b o ∧
      ((b.isSwapper = true ∧ b.supply = 0 ∧ o.size ≤ b.maxSupply ∧
          b.violatesSanity o.maxPrices = .ok false ∧ e = .found b o) ∨
        (b.isSwapper = true → b.supply ≠ 0) ∧
          ∃ p, m.pricesWithBuy r.amount.denom o = .ok p ∧ e = .join o p) := by
  simp only [decideBuy, Result.bind_eq_ok] at h
  obtain ⟨_, hcheck, b, hb, _, htrading, maxPrices, hmax, _, htokens, _, -, h⟩ := h
  simp only [BuyRequest.check, Result.bind_eq_ok] at hcheck
  obtain ⟨_, -, _, hpos, -⟩ := hcheck
  refine ⟨b, { address := r.buyer, amount := r.amount, maxPrices },
    ⟨bondFor_eq_ok hb, rejectIf_eq_ok_iff.1 htrading, by simpa using rejectIf_eq_ok_iff.1 htokens,
      rfl, rfl, rfl, not_le.1 (rejectIf_eq_ok_iff.1 hpos), hmax⟩, ?_⟩
  split at h
  · rename_i hfirst
    simp only [Bool.and_eq_true, beq_iff_eq] at hfirst
    simp only [Result.bind_eq_ok] at h
    obtain ⟨outside, houtside, _, hinside, _, hle, he⟩ := h
    cases he
    obtain rfl : outside = false := by simpa using rejectIf_eq_ok_iff.1 hinside
    exact .inl ⟨hfirst.1, hfirst.2, not_lt.1 (rejectIf_eq_ok_iff.1 hle), houtside, rfl⟩
  · rename_i hfirst
    simp only [Result.bind_eq_ok] at h
    obtain ⟨_, -, p, hp, he⟩ := h
    cases he
    exact .inr ⟨fun hswap hsupply => hfirst (by simp [hswap, hsupply]), p, hp, rfl⟩

/-- A buy that is included in a batch leaves room for all buys, also below the end of a hatch, and
can pay the prices that include it. -/
theorem pricesWithBuy_eq_ok (hb : Table.get? m.store.bonds token = some b)
    (hβ : Table.get? m.store.batches token = some β) {o : BuyOrder} {p : ClearingPrices}
    (h : m.pricesWithBuy token o = .ok p) :
    b.supply + (β.totalBuy + o.size) ≤ b.maxSupply ∧
      (b.inHatch = true →
        ∃ limit, b.hatchLimit = .ok limit ∧ b.supply + (β.totalBuy + o.size) ≤ limit) ∧
      b.clearingPrices (m.reserveOf b) (β.totalBuy + o.size) β.totalSell = .ok p ∧
      b.checkAffordable o p.buy = .ok () := by
  simp only [pricesWithBuy, bond_eq_ok hb, batch_eq_ok hβ, Store.supplyWithBuys, Result.ok_bind,
    Result.pure_eq_ok, Result.bind_eq_ok] at h
  obtain ⟨_, hle, h⟩ := h
  have hroom := not_lt.1 (rejectIf_eq_ok_iff.1 hle)
  refine ⟨by omega, ?_⟩
  split at h
  · simp only [Result.bind_eq_ok] at h
    obtain ⟨limit, hlimit, _, hbelow, _, hp, _, hafford, he⟩ := h
    cases he
    have := not_lt.1 (rejectIf_eq_ok_iff.1 hbelow)
    exact ⟨fun _ => ⟨limit, hlimit, by omega⟩, hp, hafford⟩
  · rename_i hhatch
    simp only [Result.bind_eq_ok] at h
    obtain ⟨_, hp, _, hafford, he⟩ := h
    cases he
    exact ⟨fun hh => absurd hh hhatch, hp, hafford⟩

theorem Held.addBuy (h : Held cfg m token b β) {o : BuyOrder} (ho : o.Formed cfg token)
    (hopen : o.isOpen = true) (p : ClearingPrices) (hphase : b.phase ≠ .settled)
    (hle : b.supply + (β.totalBuy + o.size) ≤ b.maxSupply)
    (hroom : b.inHatch = true →
      ∃ limit, b.hatchLimit = .ok limit ∧ b.supply + (β.totalBuy + o.size) ≤ limit)
    (hreserve : ∀ d, m₁.balance (reserveAccountFor token) d =
      m.balance (reserveAccountFor token) d)
    (htotal : m₁.ledger.totalSupply token = m.ledger.totalSupply token) :
    Held cfg m₁ token b (β.addBuy o p.buy p.sell) :=
  Held.congr (m := m)
    { h with
      orders := h.orders.addBuy ho hopen _ _
      buys_le := hle
      room := hroom
      settled := fun hs => absurd hs hphase }
    hreserve htotal

/-- In a hatch a buy that can pay when it is admitted is one that can pay the flat price. -/
theorem Hatching.addBuy (h : m.Hatching b β) (hheld : Held cfg m token b β)
    (hhatch : b.inHatch = true) {o : BuyOrder} (ho : o.Formed cfg token) (hopen : o.isOpen = true)
    {p : ClearingPrices}
    (hprices : b.clearingPrices (m.reserveOf b) (β.totalBuy + o.size) β.totalSell = .ok p)
    (hcheck : b.checkAffordable o p.buy = .ok ()) :
    m.Hatching b (β.addBuy o p.buy p.sell) := by
  have hsize := ho.size_pos
  have hbuy := hheld.orders.totalBuy_nonneg
  rw [(hheld.hatch hhatch).2] at hprices
  refine { raised := h.raised, unsold := h.unsold, isOpen := fun o' ho' => ?_
           pays := fun o' ho' p0 hp0 => ?_ }
  · rcases List.mem_append.1 ho' with ho' | ho'
    · exact h.isOpen o' ho'
    · exact List.mem_singleton.1 ho' ▸ hopen
  · rcases List.mem_append.1 ho' with ho' | ho'
    · exact h.pays o' ho' p0 hp0
    · obtain rfl : o' = o := List.mem_singleton.1 ho'
      rw [Bond.clearingPrices_inHatch hheld.formed hhatch hp0 (by omega),
        Except.ok.injEq] at hprices
      subst hprices
      obtain ⟨p0', hp0', hnonneg⟩ :=
        (hheld.formed.hatch (Bond.inHatch_isAugmented hhatch)).price
      obtain rfl := Except.ok.inj (hp0'.symm.trans hp0)
      obtain ⟨hafford, -⟩ | ⟨-, _, herror⟩ := Bond.checkAffordable_spec hheld.formed.txFee
        (DecCoins.proper_uniform b.reserveTokens hnonneg) hsize.le ho.maxPrices
      · exact hafford
      · cases hcheck.symm.trans herror

theorem joinBatch_sat (hsep : cfg.Separate) (h : Sound cfg bonded fills m) {r : BuyRequest}
    (hr : cfg.IsUser r.buyer) {o : BuyOrder} (ho : m.Admissible r b o) {p : ClearingPrices}
    (hp : m.pricesWithBuy r.amount.denom o = .ok p) :
    (joinBatch cfg r.amount.denom o p).Sat m
      (fun _ m' => Sound cfg bonded fills m' ∧ Worked r.amount.denom Bond.Traded m m')
      (Refused m) := by
  have hb := ho.bond
  obtain ⟨-, β, hβ, hheld⟩ := h.kept.held _ b hb
  obtain ⟨hle, hroom, hprices, hcheck⟩ := pricesWithBuy_eq_ok hb hβ hp
  have hformed := ho.formed hheld.formed hr
  unfold joinBatch
  refine first_sat h (c := .transfer o.address cfg.escrowAccount o.maxPrices.entries)
    hformed.maxPrices.ofEntries_entries fun m₁ hpost => ?_
  have hβ₁ : Table.get? m₁.store.batches r.amount.denom = some β := hpost.batch hβ
  have hb₁ : Table.get? m₁.store.bonds r.amount.denom = some b := hpost.bond hb
  obtain ⟨hsound, hworked⟩ := h.admit (β.addBuy o p.buy p.sell) hb ho.phase hβ hpost
    (fun u d => by simp [LedgerCall.flow, hsep.escrow_ne_reserve, hformed.user.ne_reserve])
    (fun _ _ => rfl)
    (fun hreserve htotal => ⟨hheld.addBuy hformed ho.isOpen p ho.phase hle hroom hreserve
      (htotal.trans (add_zero _)), fun _ => by
        rw [reserveOf_congr (hheld.formed.address ▸ hreserve)]
        exact hprices⟩)
    (h.trades _ b β hb hβ)
    (fun hhatch => (h.hatching _ b β hb hβ hhatch).addBuy hheld hhatch hformed ho.isOpen hprices
      hcheck)
    (fun d => by
      simp [LedgerCall.flow, hformed.user.ne_escrow, Batch.pledged_addBuy ho.isOpen,
        CoinEntries.amountOf_entries hformed.maxPrices])
  simp only [Action.sat_bind, Action.sat_get, Action.sat_lift_of_ok (batch_eq_ok hβ₁), setBatch,
    Action.sat_modify]
  refine (cancelUnfulfillable_sat hsep hsound.kept hb₁ (get?_withBatch ..)
    (hsound.current _ _ _ hb₁ (get?_withBatch ..))).of_total fun _ m' hswept => ?_
  obtain ⟨β', hswept⟩ := hswept
  rw [Action.sat_lift_of_ok (batch_eq_ok hswept.batch)]
  -- The buy is still the last of its batch.
  have hlast : β.buys.length < β'.buys.length := by
    rw [← hswept.passed.length_eq]
    show β.buys.length < (β.buys ++ [o]).length
    simp
  have horder : Batch.orderAt β'.buys β.buys.length = .ok β'.buys[β.buys.length] := by
    simp [Batch.orderAt, hlast]
  rw [Action.sat_lift_of_ok horder]
  exact ⟨hswept.sound hsound hb₁ (get?_withBatch ..), hworked.apart.trans hswept.apart,
    b, b, hb, hswept.bond, ho.phase, rfl⟩

theorem Sound.revalue (h : Sound cfg bonded fills m) {b' : Bond}
    (hb : Table.get? m.store.bonds token = some b)
    (hβ : Table.get? m.store.batches token = some β) {flow : Account → Denom → Int}
    {made : Denom → Int} (hpost : m.Posted m₁ flow made)
    (hflow : ∀ u ≠ token, ∀ d, flow (reserveAccountFor u) d = 0)
    (hescrow : ∀ d, flow cfg.escrowAccount d = 0) (hmade : ∀ d ≠ token, made d = 0)
    (hheld : Held cfg m₁ token b' β) (hterms : b'.terms = b.terms)
    (hnone : β.totalBuy + β.totalSell = 0)
    (htrades : Trades b' β) (hhatch : b'.inHatch = false) (hbacked : m₁.Backed b' (fills token))
    (hstocked : m₁.Stocked b') :
    Sound cfg bonded fills (m₁.withBond token b') ∧ Apart token m (m₁.withBond token b') := by
  have hapart : Apart token m (m₁.withBond token b') :=
    (hpost.apart hflow hmade).trans (apart_withBond (hpost.bond hb) hterms)
  have hβ₁ : Table.get? (m₁.withBond token b').store.batches token = some β := by
    rw [withBond_batches, hpost.store]
    exact hβ
  refine ⟨h.replace hapart ?_ (fun _ _ => rfl) (get?_withBond ..) hβ₁
    (fun hpos => absurd hpos (by omega)) htrades (fun hh => by cases hhatch.symm.trans hh)
    (hbacked.congr fun _ => rfl) (hstocked.congr fun _ => rfl), hapart⟩
  refine h.kept.replace hapart hβ (get?_withBond ..) hβ₁ (hheld.congr (fun _ => rfl) rfl)
    hpost.solvent fun d => ?_
  show m₁.ledger.balanceOf cfg.escrowAccount d + _ = _
  rw [hpost.balance, hescrow, add_zero]

theorem Held.refounded (h : Held cfg m token b β) (hnone : β.totalBuy + β.totalSell = 0)
    (hhatch : b.inHatch = false) {supply : Int} (hnonneg : 0 ≤ supply) (hle : supply ≤ b.maxSupply)
    (htotal : m₁.ledger.totalSupply token = m.ledger.totalSupply token + (supply - b.supply)) :
    Held cfg m₁ token (b.marked supply (m₁.reserveOf b).dropZeros) β := by
  have hbuy := h.orders.totalBuy_nonneg
  have hsell := h.orders.totalSell_nonneg
  have hminted := h.minted
  exact {
    formed := h.formed.marked _ _, feeUser := h.feeUser, orders := h.orders
    supply_nonneg := hnonneg
    sells_le := by rw [Bond.supply_marked]; omega
    buys_le := by
      show supply + β.totalBuy ≤ b.maxSupply
      omega
    family := h.family, hatch := h.hatch, room := fun hh => by cases hhatch.symm.trans hh
    settled := h.settled
    minted := by rw [Bond.supply_marked]; omega
    synced := rfl }

theorem Spared.of_moves {m' : Market} (h : Spared m m₁)
    (hb : Table.get? m.store.bonds token = some b) {vs : List Move}
    (hmade : ∀ d ≠ token, ∀ v ∈ vs, v.call.made d = 0)
    (htotal : ∀ d, (∀ v ∈ vs, v.call.made d = 0) →
      m'.ledger.totalSupply d = m₁.ledger.totalSupply d) : Spared m m' := by
  intro d hd
  rw [htotal d (hmade d fun hd' => ?_), h d hd]
  rw [hd'] at hd
  cases hb.symm.trans hd

/-- A change of the supply at once: a first call of the ledger, then moves, and last the record. It
fails only where the calls do not find what they take or the supply would be negative. -/
theorem revalue_sat (h : Sound cfg bonded fills m) (hb : Table.get? m.store.bonds token = some b)
    (hβ : Table.get? m.store.batches token = some β) (hnone : β.totalBuy + β.totalSell = 0)
    (hswaps : β.swaps = []) (hhatch : b.inHatch = false) {c : LedgerCall} (hc : c.Proper)
    {vs : List Move} (hvs : ∀ v ∈ vs, v.call.Proper) {supply : Int}
    (hflow : ∀ u ≠ token, ∀ d,
      c.flow (reserveAccountFor u) d + Move.flow (reserveAccountFor u) d vs = 0)
    (hescrow : ∀ d, c.flow cfg.escrowAccount d + Move.flow cfg.escrowAccount d vs = 0)
    (hmade : ∀ d, c.made d = 0) (hmade' : ∀ d ≠ token, ∀ v ∈ vs, v.call.made d = 0)
    (hsupply : Move.made token vs = supply - b.supply) (hle : supply ≤ b.maxSupply)
    (hbacked : ∀ (m₁ : Market) r, m₁.Backed (b.marked supply r) (fills token))
    (hstocked : ∀ (m₁ : Market) r, (∀ d, m₁.balance b.reserveAddress d =
        m.balance b.reserveAddress d +
          (c.flow b.reserveAddress d + Move.flow b.reserveAddress d vs)) →
      m₁.Stocked (b.marked supply r))
    {Q : Unit → Market → Prop} {E : Error → Market → Prop}
    (hQ : ∀ m' r, Sound cfg bonded fills m' → Apart token m m' →
      Table.get? m'.store.bonds token = some (b.marked supply r) →
      m'.store.batches = m.store.batches →
      (∀ a d, m'.balance a d = m.balance a d + (c.flow a d + Move.flow a d vs)) → Q () m')
    (hE : ∀ e m', Refused m e m' →
      ¬ (c.Covered m.balance ∧ Move.Covered (fun a d => m.balance a d + c.flow a d) vs ∧
        0 ≤ supply) → E e m') :
    (call c).Sat m (fun _ m₁ => (carryOutAll vs).Sat m₁ (fun _ m₂ =>
      (setSupply token supply).Sat m₂ (fun _ m₃ => (syncReserve token).Sat m₃ Q E) E) E) E := by
  have hheld := h.kept.held_of_get? hb hβ
  have hnothing (d : Denom) (hd : d ≠ token) : c.made d + Move.made d vs = 0 := by
    rw [hmade, zero_add]
    refine List.sum_eq_zero fun n hn => ?_
    obtain ⟨v, hv, rfl⟩ := List.mem_map.1 hn
    exact hmade' d hd v hv
  refine (call_sat h.kept.refusals h.kept.solvent fun _ => hc.of_ok).mono
    (fun _ m₁ hpaid => ?_) ?_
  swap
  · rintro e m' ⟨rfl, hrun⟩
    exact hE e _ (.same e) fun hcovered =>
      (Ledger.run_error h.kept.solvent hc hrun).2 hcovered.1
  have hspared := hpaid.spared (fun d _ => hmade d) hb
  have hbalance : m₁.ledger.balanceOf = fun a d => m.balance a d + c.flow a d := by
    funext a d
    exact hpaid.balance a d
  -- Up to here the call could be refused; whatever fails afterwards is fatal.
  refine (carryOutAll_sat (hpaid.refusals.trans h.kept.refusals) hpaid.solvent hvs).mono
    (fun _ m₂ hsent => ?_) fun e m' he =>
      hE e m' ⟨.inr (Move.isFatal_of_failed he.1.1), hspared.of_moves hb hmade' he.2⟩
        fun hcovered => he.1.2 (hbalance ▸ hcovered.2.1)
  have hpost := hpaid.trans hsent
  have hb₂ : Table.get? m₂.store.bonds token = some b := hpost.bond hb
  refine record_sat hb₂ _ (fun hneg e he => hE e _ ⟨.inr he, hpost.spared hnothing hb⟩
    fun hcovered => absurd hcovered.2.2 (not_le.2 hneg)) fun hnonneg => ?_
  have hheld₂ : Held cfg m₂ token (b.marked supply (m₂.reserveOf b).dropZeros) β :=
    hheld.refounded hnone hhatch hnonneg hle (by rw [hpost.total, hmade, hsupply, zero_add])
  obtain ⟨hsound, hapart⟩ := h.revalue hb hβ hpost hflow hescrow hnothing hheld₂ rfl hnone
    (fun hne => absurd hswaps hne) hhatch (hbacked m₂ _)
    (hstocked m₂ _ fun d => hpost.balance b.reserveAddress d)
  exact hQ _ _ hsound hapart (get?_withBond ..) (by rw [withBond_batches, hpost.store])
    hpost.balance

/-- The pool of a bond was founded: what was bought is its supply, and what was paid has been added
to what its reserve account held. -/
structure Founded (token : Denom) (b : Bond) (o : BuyOrder) (m m' : Market) : Prop where
  apart : Apart token m m'
  before : Table.get? m.store.bonds token = some b
  live : b.phase ≠ .settled
  after : ∃ reserve, Table.get? m'.store.bonds token = some (b.marked (b.supply + o.size) reserve)
  paid : ∀ d, m'.balance (reserveAccountFor token) d =
    m.balance (reserveAccountFor token) d + o.maxPrices.amountOf d

theorem Founded.worked {o : BuyOrder} {m' : Market} (h : Founded token b o m m') :
    Worked token Bond.Traded m m' := by
  obtain ⟨_, hafter⟩ := h.after
  exact ⟨h.apart, b, _, h.before, hafter, h.live, rfl⟩

theorem foundPool_sat (hsep : cfg.Separate) (h : Sound cfg bonded fills m) {r : BuyRequest}
    (hr : cfg.IsUser r.buyer) {o : BuyOrder} (ho : m.Admissible r b o)
    (hswap : b.isSwapper = true) (hsupply : b.supply = 0) (hle : o.size ≤ b.maxSupply) :
    (foundPool cfg r.amount.denom b o).Sat m
      (fun _ m' => Sound cfg bonded fills m' ∧ Founded r.amount.denom b o m m')
      (Refused m) := by
  have hb := ho.bond
  obtain ⟨-, β, hβ, hheld⟩ := h.kept.held _ b hb
  have hformed := ho.formed hheld.formed hr
  have haddress := hheld.formed.address
  have hbought := Coin.proper_toCoins o.amount
  have hamount (d : Denom) : CoinEntries.amountOf o.amount.toCoins.entries d =
      if r.amount.denom = d then o.size else 0 := by
    rw [CoinEntries.amountOf_entries hbought, Coin.amountOf_toCoins, hformed.denom]
    rfl
  -- Before there is a pool, no order can have been admitted.
  have hswaps : β.swaps = [] := by
    by_contra hne
    exact (h.trades _ b β hb hβ hne).1 hsupply
  have hhatch := Bond.inHatch_eq_false hswap
  have hflow (d : Denom) :
      (LedgerCall.transfer o.address b.reserveAddress o.maxPrices.entries).flow b.reserveAddress d +
        Move.flow b.reserveAddress d [
          ⟨.mintTokens, .mint cfg.mintBurnAccount o.amount.toCoins.entries⟩,
          ⟨.sendTokens, .transfer cfg.mintBurnAccount o.address o.amount.toCoins.entries⟩] =
        o.maxPrices.amountOf d := by
    simp [LedgerCall.flow, haddress, hsep.mintBurn_ne_reserve, hformed.user.ne_reserve,
      CoinEntries.amountOf_entries hformed.maxPrices]
  simp only [foundPool, Action.sat_bind]
  refine revalue_sat h hb hβ ((h.current _ b β hb hβ).total_eq_zero hheld hswap hsupply)
    hswaps hhatch
    (c := .transfer o.address b.reserveAddress o.maxPrices.entries)
    hformed.maxPrices.ofEntries_entries (fun v hv => ?_) (fun u hu d => ?_) (fun d => ?_)
    (fun _ => rfl) (fun d hd v hv => ?_) ?_ (by omega) (fun m₁ reserve htype => ?_)
    (fun m₁ reserve hpaid => ho.stocked hformed.maxPrices (h.stocked _ b hb) h.kept.solvent
      fun d => (hpaid d).trans (congrArg _ (hflow d)))
    (fun _ _ hsound hapart hb' _ hpaid => ⟨hsound, hapart, hb, ho.phase, ⟨_, hb'⟩,
      fun d => haddress ▸ (hpaid b.reserveAddress d).trans (congrArg _ (hflow d))⟩)
    fun _ _ hrefused _ => hrefused
  · simp only [List.mem_cons, List.not_mem_nil, or_false] at hv
    rcases hv with rfl | rfl <;> exact hbought.ofEntries_entries
  · simp [LedgerCall.flow, haddress, reserveAccountFor_inj, hu.symm, hsep.mintBurn_ne_reserve,
      hformed.user.ne_reserve]
  · simp [LedgerCall.flow, haddress, (hsep.escrow_ne_reserve _).symm, hsep.mintBurn_ne_escrow,
      hformed.user.ne_escrow]
  · simp only [List.mem_cons, List.not_mem_nil, or_false] at hv
    rcases hv with rfl | rfl
    · rw [LedgerCall.made, hamount, if_neg hd.symm]
    · rfl
  · simp [LedgerCall.made, hamount]
  · -- A swapper bond has no curve whose reserve could be asked for.
    cases hswap.symm.trans (Bond.not_swapper_hatch (b := b) htype).1

theorem submitBuy_sat (hsep : cfg.Separate) (h : Sound cfg bonded fills m) (r : BuyRequest)
    (hr : cfg.IsUser r.buyer) :
    (submitBuy cfg r).Sat m
      (fun _ m' => Sound cfg bonded fills m' ∧ Worked r.amount.denom Bond.Traded m m')
      (Refused m) := by
  rw [submitBuy, Action.sat_bind, Action.sat_get]
  refine decide_sat fun e he => ?_
  rcases decideBuy_eq_ok he with ⟨b, o, ho, ⟨hswap, hsupply, hle, -, rfl⟩ | ⟨-, p, hp, rfl⟩⟩
  · rw [Action.sat_bind]
    exact (foundPool_sat hsep h hr ho hswap hsupply hle).imp fun _ _ hs => ⟨hs.1, hs.2.worked⟩
  · exact joinBatch_sat hsep h hr ho hp

end Market
end BondMarket
