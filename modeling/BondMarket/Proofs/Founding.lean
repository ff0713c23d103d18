import BondMarket.Proofs.Phases
import BondMarket.Proofs.SanityBand

/-!
Founding a pool. The first buy of a swapper bond without supply becomes its pool, and it is let
in only if what it pays is inside the sanity band. The pool that there is then is the payment
together with what the reserve account held before. A reserve account from which no shares are
out need not be empty: what the sells of the last shares were paid was rounded down. Until a pool
is founded for the first time it is empty, and then the pool is as sane as the payment; later it
is sane if what was left is, and otherwise the sum decides.
-/

namespace BondMarket

/-! ### The sanity band -/

namespace Bond

/-- How far the ratio of the reserves may be from the sanity rate, as a part of the rate. -/
def bandWidth (b : Bond) : Dec := ⟨roundHalfEven (b.sanityMargin.raw * Dec.scale) Dec.hundred.raw⟩

/-- Two reserves are inside the sanity band: there is something of the second, and the first for one
unit of it, rounded to the last place, is neither below nor above the band. -/
structure InBand (b : Bond) (first second : Int) : Prop where
  second_pos : 0 < second
  low : (b.sanityRate * (Dec.one - b.bandWidth)).clamped.raw ≤
    roundHalfEven (first * Dec.scale) second
  high : roundHalfEven (first * Dec.scale) second ≤ (b.sanityRate * (Dec.one + b.bandWidth)).raw

variable {b : Bond} {x y u v : Int} {token : Denom}

/-- The sum of two pairs of reserves is inside the band if both are: its ratio is between theirs. -/
theorem InBand.add (h : b.InBand x y) (h' : b.InBand u v) : b.InBand (x + u) (y + v) := by
  have hy := h.second_pos
  have hv := h'.second_pos
  rcases le_total (x * Dec.scale * v) (u * Dec.scale * y) with hle | hle
  · obtain ⟨hlow, hhigh⟩ := roundHalfEven_mediant hy hv hle
    rw [← add_mul] at hlow hhigh
    exact ⟨add_pos hy hv, h.low.trans hlow, hhigh.trans h'.high⟩
  · obtain ⟨hlow, hhigh⟩ := roundHalfEven_mediant hv hy hle
    rw [← add_mul, add_comm u, add_comm v] at hlow hhigh
    exact ⟨add_pos hy hv, h'.low.trans hlow, hhigh.trans h.high⟩

theorem violatesRate_eq_false_iff (hrate : b.sanityRate ≠ Dec.zero) (hy : 0 ≤ y) :
    Pool.violatesRate x y b.sanityRate b.sanityMargin = .ok false ↔ b.InBand x y := by
  have hraw : b.sanityRate.raw ≠ 0 := fun hzero => hrate (Dec.ext hzero)
  rcases hy.eq_or_lt with rfl | hpos
  · refine iff_of_false ?_ fun h => absurd h.second_pos (lt_irrefl 0)
    simp [Pool.violatesRate, Dec.isZero, hraw]
  · obtain ⟨violates, hok, hpass⟩ := Pool.exists_violatesRate hraw hpos x b.sanityMargin
    rw [hok, Except.ok.injEq, hpass]
    exact ⟨fun h => ⟨hpos, h.1, h.2⟩, fun h => ⟨h.low, h.high⟩⟩

theorem Formed.exists_band (hf : b.Formed token) (hswap : b.isSwapper = true)
    (hrate : b.sanityRate ≠ Dec.zero) :
    ∃ d d', sortedTexts b.reserveTokens = [d, d'] ∧ d ∈ b.reserveTokens ∧ d' ∈ b.reserveTokens ∧
      ∀ reserve : Coins, 0 ≤ reserve.amountOf d' →
        (b.violatesSanity reserve = .ok false ↔
          b.InBand (reserve.amountOf d) (reserve.amountOf d')) := by
  obtain ⟨d, d', hsorted⟩ := hf.exists_sortedPair hswap
  refine ⟨d, d', hsorted, mem_sortedTexts.1 (by simp [hsorted]),
    mem_sortedTexts.1 (by simp [hsorted]), fun reserve hnonneg => ?_⟩
  rw [violatesSanity, hsorted, Pool.reservesViolateRate]
  exact violatesRate_eq_false_iff hrate hnonneg

end Bond

/-! ### Pools that were never founded -/

namespace Market

variable {cfg : Config} {bonded : Denom → Prop} {fills : Denom → Nat} {m m' : Market}
  {token t : Denom} {b b' : Bond} {β : Batch}

/-- If a token is that of a swapper bond, the bond has no supply and, unless it has been settled,
its reserve account is empty. -/
def Dry (m : Market) (t : Denom) : Prop :=
  ∀ b, Table.get? m.store.bonds t = some b → b.isSwapper = true →
    b.supply = 0 ∧ (b.phase ≠ .settled → ∀ d, m.balance (reserveAccountFor t) d = 0)

theorem Dry.of_same (h : m.Dry t) (hstore : m'.store = m.store)
    (hreserve : ∀ d, m'.balance (reserveAccountFor t) d = m.balance (reserveAccountFor t) d) :
    m'.Dry t := by
  intro b hb hswap
  obtain ⟨hsupply, hempty⟩ := h b (hstore ▸ hb) hswap
  exact ⟨hsupply, fun hlive d => (hreserve d).trans (hempty hlive d)⟩

/-- What works on one bond leaves the others dry, and the one it works on if it does nothing to its
supply and its reserve but settle it. -/
theorem Worked.dry {R : Bond → Bond → Prop} (h : Worked token R m m') (hdry : m.Dry t)
    (hR : ∀ b b', Table.get? m.store.bonds token = some b → b.isSwapper = true → b.supply = 0 →
      t = token → R b b' → b'.supply = 0 ∧ (b'.phase = .settled ∨
        b'.phase = b.phase ∧
          ∀ d, m'.balance (reserveAccountFor t) d = m.balance (reserveAccountFor t) d)) :
    m'.Dry t := by
  intro b' hb' hswap'
  by_cases ht : t = token
  · obtain ⟨b, b₁, hb, hb₁, hRb⟩ := h.bond
    subst ht
    obtain rfl := Option.some.inj (hb₁.symm.trans hb')
    obtain ⟨b₂, hb₂, hterms⟩ := h.apart.lasting t b hb
    obtain rfl := Option.some.inj (hb₁.symm.trans hb₂)
    have hswap := (Bond.isSwapper_congr hterms).symm.trans hswap'
    obtain ⟨hsupply, hempty⟩ := hdry b hb hswap
    obtain ⟨hsupply', hsettled | ⟨hphase, hreserve⟩⟩ := hR b b₁ hb hswap hsupply rfl hRb
    · exact ⟨hsupply', fun hlive => absurd hsettled hlive⟩
    · exact ⟨hsupply', fun hlive d => (hreserve d).trans (hempty (hphase ▸ hlive) d)⟩
  · obtain ⟨hsupply, hempty⟩ := hdry b' ((h.apart.bond t ht).symm.trans hb') hswap'
    exact ⟨hsupply, fun hlive d => (h.apart.reserve t ht d).trans (hempty hlive d)⟩

theorem elapseCycle_dry (hsep : cfg.Separate) (h : Sound cfg bonded fills m) (hdry : m.Dry t)
    {s : Option Settlement} (hs : elapseCycle cfg token m = .ok s m') : m'.Dry t := by
  obtain ⟨b, hb⟩ := exists_bond_of_elapseCycle hs
  obtain ⟨-, β, hβ, -⟩ := h.kept.held token b hb
  obtain ⟨-, hapart, -⟩ := (elapseCycle_sat_of_bond hsep h hb hβ).of_ok hs
  obtain ⟨b', hb', -⟩ := hapart.lasting token b hb
  refine Worked.dry (R := fun b₁ b₁' => b₁ = b ∧ b₁' = b') ⟨hapart, b, b', hb, hb', rfl, rfl⟩ hdry
    ?_
  rintro _ _ - hswap hsupply rfl ⟨rfl, rfl⟩
  cases s with
  | none =>
      rcases (elapseCycle_sat_of_close hb hβ fun _ => Action.Sat.trivial _ _).of_ok hs with
        ⟨-, -, rfl⟩ | ⟨-, _, hsome, -⟩
      · obtain rfl := Option.some.inj (hb.symm.trans hb')
        exact ⟨hsupply, .inr ⟨rfl, fun _ => rfl⟩⟩
      · cases hsome
  | some s =>
      obtain ⟨-, hclosed⟩ := elapseCycle_closed hsep h hb hβ hs
      have hnone := h.hasOpenOrders_of_unfounded hb hβ hswap hsupply
      obtain ⟨hledger, -, r, hclosed'⟩ := hclosed.idle (h.countDown hb hβ _) hb (get?_withBatch ..)
        hnone (Bond.inHatch_eq_false hswap)
      obtain rfl := Option.some.inj (hb'.symm.trans hclosed')
      exact ⟨hsupply, .inr ⟨rfl, fun d => by rw [balance, hledger]; rfl⟩⟩

theorem endCycle_dry (hsep : cfg.Separate) (h : Sound cfg bonded fills m) (hdry : m.Dry t) :
    (endCycle cfg).Sat m (fun _ m' => m'.Dry t) fun _ _ => True := by
  rw [endCycle, Action.sat_bind, Action.sat_get]
  refine (Action.sat_gather
    (I := fun _ _ m₁ => (∃ fills, Sound cfg bonded fills m₁) ∧ m₁.Dry t) ?_ _
    ⟨⟨_, h⟩, hdry⟩).imp fun _ _ hend => hend.2
  rintro token _ _ m₁ ⟨⟨_, hsound⟩, hdry⟩
  refine (elapseCycle_sat hsep hsound token).recall.mono (fun s m' hs => ?_) fun _ _ _ => trivial
  obtain ⟨hrun, hsound', -⟩ := hs
  exact ⟨⟨_, hsound'⟩, elapseCycle_dry hsep hsound hdry hrun⟩

theorem Created.dry {r : CreateBond} (h : Created r m m') (hkept : Kept cfg bonded m)
    (hdry : m.Dry t) : m'.Dry t := by
  obtain ⟨b₀, blocks, hfresh, rfl⟩ := h.market
  intro b hb hswap
  by_cases ht : r.token = t
  · subst ht
    obtain rfl := Option.some.inj ((get?_withBond ..).symm.trans hb)
    exact ⟨hfresh.supply, fun _ => (hkept.vacant _ h.new).1⟩
  · exact hdry b ((Table.get?_set_of_ne _ ht _).symm.trans hb) hswap

theorem submitSell_supply (h : Sound cfg bonded fills m) {r : SellRequest} {o : SellOrder}
    (hrun : submitSell cfg r m = .ok o m')
    (hb : Table.get? m.store.bonds r.amount.denom = some b) : b.supply ≠ 0 := by
  obtain ⟨op, hop, -⟩ := exists_decided (x := fun m => m.decideSell r) hrun
  obtain ⟨-, -, hsize, hp⟩ := decideSell_eq_ok (o := op.1) (p := op.2) hop
  obtain ⟨-, β, hβ, hheld⟩ := h.kept.held _ b hb
  have hle := (pricesWithSell_eq_ok hb hβ hp).1
  have hsell := hheld.orders.totalSell_nonneg
  omega

theorem submitSwap_supply {r : SwapRequest} {o : SwapOrder}
    (hrun : submitSwap cfg r m = .ok o m')
    (hb : Table.get? m.store.bonds r.bondToken = some b) : b.supply ≠ 0 := by
  obtain ⟨o, ho, -⟩ := exists_decided (x := fun m => m.decideSwap r) hrun
  obtain ⟨⟨b₁, hb₁, hsupply, -⟩, -⟩ := decideSwap_eq_ok ho
  obtain rfl := Option.some.inj (hb₁.symm.trans hb)
  exact hsupply

theorem submitBuy_founded (hsep : cfg.Separate) (h : Sound cfg bonded fills m) {r : BuyRequest}
    (hr : cfg.IsUser r.buyer) (hb : Table.get? m.store.bonds r.amount.denom = some b)
    (hswap : b.isSwapper = true) (hsupply : b.supply = 0) {o : BuyOrder}
    (hrun : submitBuy cfg r m = .ok o m') :
    m.Admissible r b o ∧ b.violatesSanity o.maxPrices = .ok false ∧
      Founded r.amount.denom b o m m' := by
  obtain ⟨e, he, hrun⟩ := exists_decided (x := fun m => m.decideBuy r) hrun
  obtain ⟨b₁, o₁, ho, hentry⟩ := decideBuy_eq_ok he
  obtain rfl := Option.some.inj (ho.bond.symm.trans hb)
  rcases hentry with ⟨-, -, hle, hinside, rfl⟩ | ⟨hfounded, -⟩
  · obtain ⟨_, _, hpool, hpure⟩ := Action.bind_eq_ok.1 hrun
    obtain ⟨rfl, rfl⟩ := Action.pure_eq_ok.1 hpure
    exact ⟨ho, hinside, ((foundPool_sat hsep h hr ho hswap hsupply hle).of_ok hpool).2⟩
  · exact absurd hsupply (hfounded hswap)

/-- A founded pool is the payment together with what the reserve account held before, and its sanity
is that of the two together. -/
theorem Founded.exists_sane_iff {o : BuyOrder} (h : Founded t b o m m') (hf : b.Formed t)
    (hkept : Kept cfg bonded m') (hswap : b.isSwapper = true) (hrate : b.sanityRate ≠ Dec.zero)
    (hproper : o.maxPrices.Proper) (hinside : b.violatesSanity o.maxPrices = .ok false) :
    ∃ b' x y, Table.get? m'.store.bonds t = some b' ∧ b'.supply = b.supply + o.size ∧
      sortedTexts b.reserveTokens = [x, y] ∧
      b.InBand (o.maxPrices.amountOf x) (o.maxPrices.amountOf y) ∧
      (∀ d, m'.balance b'.reserveAddress d =
        m.balance b.reserveAddress d + o.maxPrices.amountOf d) ∧
      (b'.violatesSanity (m'.reserveOf b') = .ok false ↔
        b.InBand (m.balance b.reserveAddress x + o.maxPrices.amountOf x)
          (m.balance b.reserveAddress y + o.maxPrices.amountOf y)) := by
  obtain ⟨reserve, hafter⟩ := h.after
  set b' := b.marked (b.supply + o.size) reserve
  have hpaid (d : Denom) : m'.balance b'.reserveAddress d =
      m.balance b.reserveAddress d + o.maxPrices.amountOf d := by
    rw [(hkept.formed hafter).address, hf.address]
    exact h.paid d
  obtain ⟨x, y, hsorted, hx, hy, hband⟩ := hf.exists_band hswap hrate
  have hx' : x ∈ b'.reserveTokens := hx
  have hy' : y ∈ b'.reserveTokens := hy
  refine ⟨b', x, y, hafter, rfl, hsorted,
    (hband _ (hproper.amountOf_nonneg y)).1 hinside, hpaid, ?_⟩
  refine (hband _ ((proper_reserveOf hkept.solvent b').amountOf_nonneg y)).trans ?_
  rw [amountOf_reserveOf, amountOf_reserveOf, if_pos hx', if_pos hy', hpaid, hpaid]

theorem handle_dry (hsep : cfg.Separate) (h : Sound cfg bonded fills m) {r : Request}
    (hr : r.Clean cfg) {answer : Response} (hrun : handle cfg r m = .ok answer m')
    (hdry : m.Dry t) (hnone : ∀ o, answer = .buy o → o.amount.denom ≠ t) : m'.Dry t := by
  cases r with
  | create r =>
      obtain ⟨_, hrun, -⟩ := Action.map_eq_ok.1 hrun
      exact ((createBond_sat hsep h r hr.1 hr.2).of_ok hrun).2.dry h.kept hdry
  | edit r =>
      obtain ⟨_, hrun, -⟩ := Action.map_eq_ok.1 hrun
      obtain ⟨-, hworked, -, hledger⟩ := (editBond_sat h r).of_ok hrun
      exact hworked.dry hdry fun b b' _ _ hsupply _ hedited =>
        ⟨hedited.2.trans hsupply, .inr ⟨hedited.1, fun d => by rw [balance, hledger]⟩⟩
  | buy r =>
      obtain ⟨o, hbuy, rfl⟩ := Action.map_eq_ok.1 hrun
      refine ((submitBuy_sat hsep h r hr).of_ok hbuy).2.dry hdry
        fun b b' hb hswap hsupply ht _ => ?_
      have hamount := (submitBuy_founded hsep h hr hb hswap hsupply hbuy).1.amount
      exact absurd (ht.symm ▸ congrArg Coin.denom hamount) (hnone o rfl)
  | sell r =>
      obtain ⟨o, hrun, -⟩ := Action.map_eq_ok.1 hrun
      exact ((submitSell_sat hsep h r hr).of_ok hrun).2.dry hdry fun b b' hb _ hsupply _ _ =>
        absurd hsupply (submitSell_supply h hrun hb)
  | swap r =>
      obtain ⟨o, hrun, -⟩ := Action.map_eq_ok.1 hrun
      exact ((submitSwap_sat hsep h r hr).of_ok hrun).2.dry hdry fun b b' hb _ hsupply _ _ =>
        absurd hsupply (submitSwap_supply hrun hb)
  | pay r =>
      obtain ⟨_, hrun, -⟩ := Action.map_eq_ok.1 hrun
      obtain ⟨-, b₀, hpaid⟩ := (payOutcome_sat hsep h r hr).of_ok hrun
      obtain ⟨reserve, hafter⟩ := hpaid.after
      refine Worked.dry (R := fun b b' => b'.supply = b.supply ∧ b'.phase = .settled)
        ⟨hpaid.apart, b₀, _, hpaid.before, hafter, rfl, rfl⟩ hdry ?_
      rintro b b' - - hsupply - ⟨hsame, hsettled⟩
      exact ⟨hsame.trans hsupply, .inl hsettled⟩
  | withdraw r =>
      obtain ⟨owed, hrun, -⟩ := Action.map_eq_ok.1 hrun
      obtain ⟨hsound, b₀, hwithdrew⟩ := (withdrawShare_sat hsep h r hr).of_ok hrun
      obtain ⟨reserve, hafter⟩ := hwithdrew.after
      obtain ⟨-, β, -, hheld⟩ := hsound.kept.held _ _ hafter
      have hnonneg := hheld.supply_nonneg
      have hpos := hwithdrew.held_pos
      rw [Bond.supply_marked] at hnonneg
      -- Who withdraws has tokens, so that the supply was not zero.
      refine hwithdrew.worked.dry hdry fun b b' hb _ hsupply _ _ => ?_
      obtain rfl := Option.some.inj (hwithdrew.before.symm.trans hb)
      omega
  | cycle token =>
      obtain ⟨_, hrun, -⟩ := Action.map_eq_ok.1 hrun
      exact elapseCycle_dry hsep h hdry hrun
  | endCycle =>
      obtain ⟨_, hrun, -⟩ := Action.map_eq_ok.1 hrun
      exact (endCycle_dry hsep h hdry).of_ok hrun

end Market

/-! ### Runs -/

variable {cfg : Config} {bonded : Denom → Prop} {log : List Response} {m : Market}

theorem CleanRun.dry (h : CleanRun cfg bonded log m) {t : Denom}
    (hnone : ∀ o, Response.buy o ∈ log → o.amount.denom ≠ t) : m.Dry t := by
  induction h with
  | start => exact fun _ hb => by cases hb
  | step hrun he hm _ ih =>
      obtain ⟨hsep, hsound⟩ := hrun.sound
      rcases hsound.apply_cases hsep he hm with ⟨r, answer, -, hr, hanswer, rfl⟩ | ⟨rfl, rfl⟩ |
        ⟨c, ledger, -, hc, hposted, rfl, rfl⟩
      · refine Market.handle_dry hsep hsound hr hanswer
          (ih fun o ho => hnone o (List.mem_append_left _ ho)) fun o ho => ?_
        exact hnone o (List.mem_append_right _ (ho ▸ List.mem_singleton_self _))
      · exact ih hnone
      · obtain ⟨hpost, -, hreserve, -⟩ := Market.Posted.clean hsound.kept.solvent hc hposted
        refine (ih hnone).of_same rfl fun d => ?_
        rw [Market.balance, hpost.balance, hreserve, add_zero]

/-- Whoever founds the pool of a swapper bond with a sanity rate pays reserves inside the sanity
band, and the pool is then this payment and what the reserve account held before. The pool does
not violate the sanity rate exactly if the two together are inside the band: always where nothing
was left or what was left is inside the band itself, and always when the pool is founded for the
first time. -/
theorem CleanRun.founding_sane_iff (h : CleanRun cfg bonded log m) {r : BuyRequest}
    (hr : cfg.IsUser r.buyer) {b : Bond} (hb : m.store.bond? r.amount.denom = some b)
    (hswap : b.isSwapper = true) (hsupply : b.supply = 0) (hrate : b.sanityRate ≠ Dec.zero)
    {answer : Response} {m' : Market} (hbuy : Market.handle cfg (.buy r) m = .ok answer m') :
    ∃ o b' x y, answer = .buy o ∧ o.amount = r.amount ∧
      m'.store.bond? r.amount.denom = some b' ∧ b'.supply = o.size ∧
      sortedTexts b.reserveTokens = [x, y] ∧
      b.InBand (o.maxPrices.amountOf x) (o.maxPrices.amountOf y) ∧
      (∀ d, m'.balance b'.reserveAddress d =
        m.balance b.reserveAddress d + o.maxPrices.amountOf d) ∧
      (b'.violatesSanity (m'.reserveOf b') = .ok false ↔
        b.InBand (m.balance b.reserveAddress x + o.maxPrices.amountOf x)
          (m.balance b.reserveAddress y + o.maxPrices.amountOf y)) ∧
      ((m.balance b.reserveAddress x = 0 ∧ m.balance b.reserveAddress y = 0 ∨
          b.InBand (m.balance b.reserveAddress x) (m.balance b.reserveAddress y) ∨
          ∀ o', .buy o' ∈ log → o'.amount.denom ≠ r.amount.denom) →
        b'.violatesSanity (m'.reserveOf b') = .ok false) := by
  obtain ⟨hsep, hsound⟩ := h.sound
  obtain ⟨o, hrun, hanswer⟩ := Action.map_eq_ok.1 hbuy
  obtain ⟨ho, hinside, hfounded⟩ :=
    Market.submitBuy_founded hsep hsound hr hb hswap hsupply hrun
  have hformed := hsound.kept.formed hb
  have hkept := ((Market.submitBuy_sat hsep hsound r hr).of_ok hrun).1.kept
  obtain ⟨b', x, y, hafter, hsize, hsorted, hdeposit, hpaid, hsane⟩ := hfounded.exists_sane_iff
    hformed hkept hswap hrate (ho.formed hformed hr).maxPrices hinside
  refine ⟨o, b', x, y, hanswer.symm, ho.amount, hafter, by omega, hsorted, hdeposit, hpaid, hsane,
    ?_⟩
  have hempty (hx : m.balance b.reserveAddress x = 0) (hy : m.balance b.reserveAddress y = 0) :
      b'.violatesSanity (m'.reserveOf b') = .ok false := by
    rw [hsane, hx, hy, zero_add, zero_add]
    exact hdeposit
  rintro (⟨hx, hy⟩ | hleft | hfirst)
  · exact hempty hx hy
  · exact hsane.2 (hleft.add hdeposit)
  · obtain ⟨-, hdry⟩ := h.dry hfirst b hb hswap
    rw [hformed.address] at hempty
    exact hempty (hdry ho.phase x) (hdry ho.phase y)

def oneToTwoEvents : List Event :=
  let funds : CoinEntries := [("res", some 3), ("rez", some 6)]
  [.post (.mint "alice" funds), .post (.mint "bob" funds),
    .request (.create {
      token := "abc"
      name := "n"
      description := "d"
      creator := "z"
      functionType := "swapper_function"
      parameters := []
      reserveTokens := ["res", "rez"]
      txFee := Dec.zero
      exitFee := Dec.zero
      feeAddress := "fees"
      maxSupply := ⟨"abc", 1000⟩
      sanityRate := ⟨500000000000000000⟩
      signers := ["z"] })]

theorem founding_sane_three :
    ∃ log m r b o b' m', CleanRun {} (· ∈ ["abc"]) log m ∧
      m.store.bond? r.amount.denom = some b ∧ b.isSwapper = true ∧ b.supply = 0 ∧
      b.sanityRate ≠ Dec.zero ∧ Market.handle {} (.buy r) m = .ok (.buy o) m' ∧
      o.maxPrices = [("res", 3), ("rez", 6)] ∧ m'.store.bond? r.amount.denom = some b' ∧
      b'.violatesSanity (m'.reserveOf b') = .ok false := by
  let r : BuyRequest :=
    { buyer := "alice", amount := ⟨"abc", 2⟩, maxPrices := [("res", some 3), ("rez", some 6)] }
  have hplay : (playClean {} ["abc"] [] {} oneToTwoEvents).any (fun s =>
      (s.1.all fun | .buy o => o.amount.denom ≠ "abc" | _ => true) ∧
      (s.2.store.bond? "abc").any (fun b => b.isSwapper = true ∧ b.supply = 0 ∧
        b.sanityRate ≠ Dec.zero) ∧
      (Market.submitBuy {} r).Sat s.2 (fun o _ => o.maxPrices = [("res", 3), ("rez", 6)])
        fun _ _ => False) = true := by
    decide +kernel
  obtain ⟨⟨log, m⟩, hplay, hcheck⟩ := (Option.any_eq_true _ _).1 hplay
  have hrun := (CleanRun.start Config.separate_default).of_playClean hplay
  obtain ⟨hfirst, hbond, hfounded⟩ := of_decide_eq_true hcheck
  obtain ⟨b, hb, hbond⟩ := (Option.any_eq_true _ _).1 hbond
  obtain ⟨hswap, hsupply, hrate⟩ := of_decide_eq_true hbond
  obtain ⟨o, m', hsubmit, hprices⟩ := hfounded.exists_ok
  have hbuy : Market.handle {} (.buy r) m = .ok (.buy o) m' :=
    Action.map_eq_ok.2 ⟨o, hsubmit, rfl⟩
  obtain ⟨_, b', _, _, -, -, hb', -, -, -, -, -, hsane⟩ :=
    hrun.founding_sane_iff (by decide) hb hswap hsupply hrate hbuy
  exact ⟨log, m, r, b, o, b', m', hrun, hb, hswap, hsupply, hrate, hbuy, hprices, hb',
    hsane (.inr (.inr fun o' ho' => of_decide_eq_true (List.all_eq_true.1 hfirst _ ho')))⟩

/-- Two shares that were founded with three and six, and that are sold one by one, are paid three
and six less one of the first token, which was not to be halved. Whoever pays three and six once
more founds a pool of four and six, which is outside the band. -/
theorem oneToTwoEvents_outside :
    let buy (buyer : Account) : Event := .request (.buy {
      buyer, amount := ⟨"abc", 2⟩, maxPrices := [("res", some 3), ("rez", some 6)] })
    let sell : Event := .request (.sell { seller := "alice", amount := ⟨"abc", 1⟩ })
    ∃ log m b o, playClean {} ["abc"] [] {} (oneToTwoEvents ++
        [buy "alice", sell, sell, .request (.cycle "abc"), buy "bob"]) = some (log, m) ∧
      CleanRun {} (· ∈ ["abc"]) log m ∧ log.getLast? = some (.buy o) ∧ o.address = "bob" ∧
      m.store.bond? "abc" = some b ∧ b.isSwapper = true ∧ b.sanityRate ≠ Dec.zero ∧
      b.supply = o.size ∧ m.balance b.reserveAddress "res" = 4 ∧
      m.balance b.reserveAddress "rez" = 6 ∧ ¬ b.violatesSanity (m.reserveOf b) = .ok false := by
  intro buy sell
  have hplay : (playClean {} ["abc"] [] {} (oneToTwoEvents ++
      [buy "alice", sell, sell, .request (.cycle "abc"), buy "bob"])).any (fun s =>
      s.1.getLast?.any (fun | .buy o => o.address = "bob" ∧ o.size = 2 | _ => false) ∧
      (s.2.store.bond? "abc").any fun b => b.isSwapper = true ∧ b.sanityRate ≠ Dec.zero ∧
        b.supply = 2 ∧ s.2.balance b.reserveAddress "res" = 4 ∧
        s.2.balance b.reserveAddress "rez" = 6 ∧
        ¬ b.violatesSanity (s.2.reserveOf b) = .ok false) = true := by
    decide +kernel
  obtain ⟨⟨log, m⟩, hplay, hcheck⟩ := (Option.any_eq_true _ _).1 hplay
  have hrun := (CleanRun.start Config.separate_default).of_playClean hplay
  obtain ⟨hlast, hbond⟩ := of_decide_eq_true hcheck
  obtain ⟨answer, hanswer, hlast⟩ := (Option.any_eq_true _ _).1 hlast
  obtain ⟨b, hb, hbond⟩ := (Option.any_eq_true _ _).1 hbond
  obtain ⟨hswap, hrate, hsupply, hres, hrez, houtside⟩ := of_decide_eq_true hbond
  cases answer with
  | buy o =>
      obtain ⟨hbob, hsize⟩ := of_decide_eq_true hlast
      exact ⟨log, m, b, o, hplay, hrun, hanswer, hbob, hb, hswap, hrate, hsupply.trans hsize.symm,
        hres, hrez, houtside⟩
  | _ => cases hlast

end BondMarket
