import BondMarket.Proofs.Monotone
import BondMarket.Proofs.Shares

/-!
The value that the curve of an augmented bond divides by. It is computed when the bond is created:
the power `S0 ^ kappa`, rounded to the last place after every multiplication, divided by the reserve
`R0` of the hatch and rounded once more. The checks of a request keep every parameter that is
divided by away from zero, but not this value, which comes out as zero where the power is at most
half a unit of the last place for each unit of the reserve. During the hatch, which has a flat
price, this does not show. Once the bond is open, it has prices for every batch if the value is
positive, and if it is zero there is no price at any supply and no order is let in.
-/

namespace BondMarket

/-! ### When the value is positive -/

namespace FunctionType.HatchParams

variable {ps : Params} {d0 : Nat} {p0 theta : Dec} {kappa : Nat} {k : HatchConstants}

/-- The value is positive exactly where the exact quotient is more than half a unit of the last
place. -/
theorem v0_pos_iff (h : HatchParams ps d0 p0 theta kappa)
    (hk : HatchConstants.ofParams ps = .ok k) :
    0 < k.v0.raw ↔ k.r0.raw < 2 * ((k.s0.power kappa).raw * Dec.scale) := by
  obtain ⟨-, -, hv0⟩ := h.constants_iff.1 hk
  have hpower := Dec.power_nonneg (h.s0_nonneg hk) kappa
  rw [(Dec.div_eq_ok hv0).2, lt_roundHalfEven_iff (h.r0_pos hk)
    (mul_nonneg hpower Dec.scale_pos.le) rfl, mul_zero, zero_add, one_mul]

/-- Where the price of a token is not above the whole raise, the hatch ends at a token or more, and
so does every power of its end. -/
theorem v0_pos_of_le (h : HatchParams ps d0 p0 theta kappa)
    (hk : HatchConstants.ofParams ps = .ok k) (hle : p0.raw ≤ (Dec.ofInt d0).raw)
    (hsmall : k.r0.raw < 2 * (Dec.scale * Dec.scale)) : 0 < k.v0.raw := by
  obtain ⟨-, hs0, -⟩ := h.constants_iff.1 hk
  have hone : Dec.scale ≤ k.s0.raw := by
    rw [(Dec.div_eq_ok hs0).2]
    apply le_roundHalfEven_of_mul_le h.price_pos
    rw [mul_comm Dec.scale]
    exact mul_le_mul_of_nonneg_right hle Dec.scale_pos.le
  have hpower := mul_le_mul_of_nonneg_right (Dec.one_le_power hone kappa) Dec.scale_pos.le
  rw [h.v0_pos_iff hk]
  omega

end FunctionType.HatchParams

/-! ### What becomes of the curve -/

namespace Curve

variable {v0 : Dec}

theorem priceAt_of_zero (hv0 : v0.raw = 0) (n : Nat) (s : Int) :
    (augmented (n + 1) v0).priceAt s = Fault.divisionByZero.fail := by
  simp only [priceAt, add_sub_cancel_right, Dec.powerInt_natCast, Result.ok_bind, Dec.div, hv0,
    if_true]

theorem reserveAt_of_zero (hv0 : v0.raw = 0) (n : Nat) (s : Int) :
    (augmented n v0).reserveAt s = Fault.divisionByZero.fail := by
  simp only [reserveAt, Dec.powerInt_natCast, Result.ok_bind, Dec.div, hv0, if_true]

end Curve

theorem Bond.clearingPrices_of_unpriced {b : Bond} (hswap : b.isSwapper = false)
    (hopen : b.inHatch = false) {c : Curve} (hc : b.curve = .ok c) {f : Fault}
    (hf : c.priceAt b.supply = f.fail) (reserve : Coins) (totalBuy totalSell : Int) :
    b.clearingPrices reserve totalBuy totalSell = f.fail := by
  simp only [clearingPrices, spotPrices, hswap, Bool.false_eq_true, if_false,
    pricesAt_open hswap hopen hc, hf]
  rfl

def Request.Orders (token : Denom) : Request → Prop
  | .buy r => r.amount.denom = token
  | .sell r => r.amount.denom = token
  | _ => False

/-- Without clearing prices no order is let in. -/
theorem Market.Sound.not_answered {cfg : Config} {bonded : Denom → Prop} {fills : Denom → Nat}
    {m : Market} {token : Denom} {b : Bond} (h : Sound cfg bonded fills m)
    (hb : Table.get? m.store.bonds token = some b) (hswap : b.isSwapper = false)
    (hnone : ∀ totalBuy totalSell p, b.clearingPrices (m.reserveOf b) totalBuy totalSell ≠ .ok p)
    {r : Request} (hr : r.Orders token) (answer : Response) (m' : Market) :
    handle cfg r m ≠ .ok answer m' := by
  intro hrun
  obtain ⟨-, β, hβ, -⟩ := h.kept.held token b hb
  cases r with
  | buy r =>
      obtain rfl : r.amount.denom = token := hr
      obtain ⟨_, hrun, -⟩ := Action.map_eq_ok.1 hrun
      obtain ⟨e, he, -⟩ := exists_decided (x := fun m => m.decideBuy r) hrun
      obtain ⟨b₁, o, ho, hentry⟩ := decideBuy_eq_ok he
      obtain rfl := Option.some.inj (ho.bond.symm.trans hb)
      rcases hentry with ⟨hpool, -⟩ | ⟨-, p, hp, -⟩
      · cases hswap.symm.trans hpool
      · exact hnone _ _ p (pricesWithBuy_eq_ok hb hβ hp).2.2.1
  | sell r =>
      obtain rfl : r.amount.denom = token := hr
      obtain ⟨_, hrun, -⟩ := Action.map_eq_ok.1 hrun
      obtain ⟨op, hop, -⟩ := exists_decided (x := fun m => m.decideSell r) hrun
      obtain ⟨-, -, -, hp⟩ := decideSell_eq_ok (o := op.1) (p := op.2) hop
      exact hnone _ _ _ (pricesWithSell_eq_ok hb hβ hp).2
  | _ => exact hr

/-! ### From the request to the open bond -/

theorem CreateBond.build_augmented {r : CreateBond} {cfg : Config} {b : Bond}
    (hr : r.check = .ok .augmented) (h : r.build cfg .augmented = .ok b) :
    b.token = r.token ∧ b.functionType = .augmented ∧
      ∃ k, HatchConstants.ofParams r.parameters = .ok k ∧ b.parameters = k.addTo r.parameters := by
  obtain ⟨ps, -, hconstants, hmake⟩ := build_eq_ok (checked_of_check hr).parameters h
  obtain ⟨k, hk, rfl⟩ := hconstants rfl
  obtain ⟨limits, payment, reserve, -, -, rfl, -⟩ := Bond.make_eq_ok hmake
  exact ⟨rfl, rfl, k, hk, rfl⟩

theorem Market.createBond_eq_ok {cfg : Config} {r : CreateBond} {m m' : Market} {b : Bond}
    (h : createBond cfg r m = .ok b m') :
    ∃ t, r.check = .ok t ∧ r.build cfg t = .ok b ∧
      Table.get? m'.store.bonds b.token = some b := by
  obtain ⟨t, ht, h⟩ := Action.lift_bind_eq_ok.1 h
  obtain ⟨_, -, h⟩ := exists_decided h
  obtain ⟨b', hb, h⟩ := Action.lift_bind_eq_ok.1 h
  obtain ⟨batch, -, h⟩ := Action.lift_bind_eq_ok.1 h
  cases h
  exact ⟨t, ht, hb, Table.get?_set_self ..⟩

/-- Throughout a run, the bond that is created of a request for an augmented bond keeps the
parameters of the request and their constants. -/
theorem CreateBond.augmented_lasting {cfg : Config} {bonded : Denom → Prop}
    {log log' : List Response} {m m₁ m' : Market} {es : List Event} {answer : Response}
    {r : CreateBond} (hr : r.check = .ok .augmented)
    (hcreate : Market.handle cfg (.create r) m = .ok answer m₁)
    (hrun : CleanRun cfg bonded log m₁) (hleads : Leads cfg bonded log m₁ es log' m') {b : Bond}
    (hb : m'.store.bond? r.token = some b) :
    b.functionType = .augmented ∧
      ∃ k, HatchConstants.ofParams r.parameters = .ok k ∧ b.parameters = k.addTo r.parameters := by
  obtain ⟨b₁, hcreate, -⟩ := Action.map_eq_ok.1 hcreate
  obtain ⟨t, ht, hbuild, hb₁⟩ := Market.createBond_eq_ok hcreate
  obtain rfl : t = .augmented := Except.ok.inj (ht.symm.trans hr)
  obtain ⟨htoken, htype, hparameters⟩ := build_augmented hr hbuild
  rw [htoken] at hb₁
  obtain ⟨b', hb', hterms⟩ := hleads.lasting hrun _ b₁ hb₁
  obtain rfl : b' = b := Option.some.inj (hb'.symm.trans hb)
  rw [show b'.functionType = b₁.functionType from (congrArg Bond.functionType hterms :),
    show b'.parameters = b₁.parameters from (congrArg Bond.parameters hterms :)]
  exact ⟨htype, hparameters⟩

/-- A request for an augmented bond that passes its checks has constants, and the value that the
curve divides by is not negative. It is positive exactly where the reserve of the hatch is less than
two billion billion times the power, and so always where the price of a token is not above the raise
and the reserve is less than two billion billion units. Then the curve has a price and a reserve at
every supply, and every batch of the open bond has its prices. Otherwise the curve has neither at
any supply, and no order for the open bond is let in. -/
theorem CreateBond.usable_iff {r : CreateBond} (hr : r.check = .ok .augmented) :
    ∃ d0 p0 theta kappa k c, FunctionType.HatchParams r.parameters d0 p0 theta kappa ∧
      HatchConstants.ofParams r.parameters = .ok k ∧
      Curve.ofParams .augmented (k.addTo r.parameters) = .ok c ∧
      0 ≤ k.v0.raw ∧
      (0 < k.v0.raw ↔ k.r0.raw < 2 * ((k.s0.power kappa).raw * Dec.scale)) ∧
      (p0.raw ≤ (Dec.ofInt d0).raw → k.r0.raw < 2 * (Dec.scale * Dec.scale) → 0 < k.v0.raw) ∧
      (0 < k.v0.raw → ∀ s, (∃ p, c.priceAt s = .ok p) ∧ ∃ q, c.reserveAt s = .ok q) ∧
      (k.v0.raw = 0 → ∀ s, c.priceAt s = Fault.divisionByZero.fail ∧
        c.reserveAt s = Fault.divisionByZero.fail) ∧
      ∀ cfg bonded log m answer m₁ es log' m' b,
        Market.handle cfg (.create r) m = .ok answer m₁ → CleanRun cfg bonded log m₁ →
        Leads cfg bonded log m₁ es log' m' → m'.store.bond? r.token = some b →
        b.phase = .opened → b.curve = .ok c ∧
          (0 < k.v0.raw → ∀ totalBuy totalSell, 0 ≤ totalBuy → 0 ≤ totalSell →
            totalSell ≤ b.supply →
              ∃ p, b.clearingPrices (m'.reserveOf b) totalBuy totalSell = .ok p) ∧
          (k.v0.raw = 0 → ∀ q : Request, q.Orders r.token → ∀ answer' m'',
            Market.handle cfg q m' ≠ .ok answer' m'') := by
  obtain ⟨d0, p0, theta, kappa, hparams⟩ :=
    FunctionType.exists_hatchParams (checked_of_check hr).parameters
  obtain ⟨k, hk⟩ := hparams.exists_constants
  have hc := hparams.curve_eq k
  -- The price is a power of one exponent less, which is why no positive exponent fails.
  obtain ⟨n, rfl⟩ : ∃ n, kappa = n + 1 := Nat.exists_eq_add_one.2 hparams.exponent_pos
  have hregular (hv0 : 0 < k.v0.raw) : (Curve.augmented (n + 1 : Nat) k.v0).Regular :=
    ⟨by omega, hv0⟩
  refine ⟨d0, p0, theta, n + 1, k, _, hparams, hk, hc, hparams.v0_nonneg hk, hparams.v0_pos_iff hk,
    hparams.v0_pos_of_le hk, fun hv0 s => ⟨Curve.exists_priceAt (hregular hv0) s,
      Curve.exists_reserveAt_of_regular (hregular hv0) s⟩,
    fun hv0 s => ⟨Curve.priceAt_of_zero hv0 n s, Curve.reserveAt_of_zero hv0 (n + 1) s⟩, ?_⟩
  intro cfg bonded log m answer m₁ es log' m' b hcreate hrun hleads hb hopen
  obtain ⟨htype, k', hk', hparameters⟩ := augmented_lasting hr hcreate hrun hleads hb
  obtain rfl : k' = k := Except.ok.inj (hk'.symm.trans hk)
  have hcurve : b.curve = .ok (.augmented (n + 1 : Nat) k'.v0) := by
    rw [Bond.curve, htype, hparameters, hc]
  have hswap := Bond.isSwapper_eq_false (Bond.isAugmented_iff.2 htype)
  have hhatch : b.inHatch = false := by simp [Bond.inHatch, hopen]
  refine ⟨hcurve, fun hv0 totalBuy totalSell hbuy hsell hle => ?_, fun hv0 q hq => ?_⟩
  · obtain ⟨price, hprice⟩ := Curve.exists_priceAt (hregular hv0) b.supply
    exact Bond.exists_clearingPrices_curve _ hswap hhatch hcurve hprice
      (Curve.exists_reserveAt_of_regular (hregular hv0)) hbuy hsell hle
  · refine (hleads.cleanRun hrun).sound.2.not_answered hb hswap (fun _ _ p hp => ?_) hq
    cases (b.clearingPrices_of_unpriced hswap hhatch hcurve (Curve.priceAt_of_zero hv0 n _) _ _
      _).symm.trans hp

def augmentedRequest (d0 p0 theta kappa : Dec) : CreateBond where
  token := "abc"
  name := "n"
  description := "d"
  creator := "z"
  functionType := "augmented_function"
  parameters := [("d0", d0), ("p0", p0), ("theta", theta), ("kappa", kappa)]
  reserveTokens := ["res"]
  txFee := Dec.zero
  exitFee := Dec.zero
  feeAddress := "fees"
  maxSupply := ⟨"abc", 1000⟩
  signers := ["z"]

def openingEvents (amount : Nat) : List Event :=
  [.request (.buy { buyer := "alice", amount := ⟨"abc", amount⟩, maxPrices := [("res", some 10)] }),
    .request (.cycle "abc")]

theorem usable_ten :
    ∃ (r : CreateBond) (k : HatchConstants) (c : Curve) (b : Bond) (reserve : Coins)
        (p : ClearingPrices), r = augmentedRequest (Dec.ofInt 10) Dec.one Dec.zero (Dec.ofInt 2) ∧
      r.check = .ok .augmented ∧ HatchConstants.ofParams r.parameters = .ok k ∧ 0 < k.v0.raw ∧
      (∀ s, (∃ p, c.priceAt s = .ok p) ∧ ∃ q, c.reserveAt s = .ok q) ∧ b.curve = .ok c ∧
      b.phase = .opened ∧ b.supply = 10 ∧ b.clearingPrices reserve 5 3 = .ok p := by
  let r := augmentedRequest (Dec.ofInt 10) Dec.one Dec.zero (Dec.ofInt 2)
  have hplay : (playClean {} ["abc"] [] {} [.post (.mint "alice" [("res", some 10)])]).any
      (fun s => (Market.handle {} (.create r)).Sat s.2 (fun answer m₁ =>
        (∀ t ∈ Table.keys m₁.store.bonds, t ∈ ["abc"]) ∧
        (playClean {} ["abc"] (s.1 ++ [answer]) m₁ (openingEvents 10)).any (fun s' =>
          (s'.2.store.bond? "abc").any fun b => b.phase = .opened ∧ b.supply = 10) = true)
        fun _ _ => False) = true := by
    decide +kernel
  obtain ⟨⟨log, m⟩, hplay, hcheck⟩ := (Option.any_eq_true _ _).1 hplay
  obtain ⟨answer, m₁, hcreate, hbonded, hcheck⟩ := (of_decide_eq_true hcheck).exists_ok
  have hrun : CleanRun {} (· ∈ ["abc"]) (log ++ [answer]) m₁ :=
    ((CleanRun.start Config.separate_default).of_playClean hplay).step (e := .request (.create r))
      (by decide) (by simp only [Event.apply, hcreate]) hbonded
  obtain ⟨⟨log', m'⟩, hplay, hcheck⟩ := (Option.any_eq_true _ _).1 hcheck
  obtain ⟨b, hb, hcheck⟩ := (Option.any_eq_true _ _).1 hcheck
  obtain ⟨hopen, hsupply⟩ := of_decide_eq_true hcheck
  have hr : r.check = .ok .augmented := by decide +kernel
  obtain ⟨d0, p0, theta, kappa, k, c, -, hk, hc, -, -, -, husable, -, htraded⟩ :=
    CreateBond.usable_iff hr
  have hconstants : HatchConstants.ofParams r.parameters =
      .ok ⟨Dec.ofInt 10, Dec.ofInt 10, Dec.ofInt 10⟩ := by decide +kernel
  have hv0 : 0 < k.v0.raw := by
    cases hk.symm.trans hconstants
    decide
  obtain ⟨hcurve, hprices, -⟩ :=
    htraded {} _ _ m answer m₁ _ log' m' b hcreate hrun (Leads.of_playClean hplay) hb hopen
  obtain ⟨p, hp⟩ := hprices hv0 5 3 (by decide) (by decide) (by rw [hsupply]; decide)
  exact ⟨r, k, c, b, _, p, rfl, hr, hk, hv0, husable hv0, hcurve, hopen, hsupply, hp⟩

/-- One unit at ten units a token ends the hatch at a tenth of a token, of which the nineteenth
power is zero in eighteen places. The whole token that is bought raises ten units, and then no token
has a price and nothing can be sold back. -/
theorem tenthToken_unusable :
    let r := augmentedRequest Dec.one (Dec.ofInt 10) Dec.zero (Dec.ofInt 19)
    ∃ k c log m b, r.check = .ok .augmented ∧ HatchConstants.ofParams r.parameters = .ok k ∧
      k.v0 = Dec.zero ∧ Curve.ofParams .augmented (k.addTo r.parameters) = .ok c ∧
      c.priceAt 1 = Fault.divisionByZero.fail ∧ c.reserveAt 1 = Fault.divisionByZero.fail ∧
      playClean {} ["abc"] [] {}
        ([.post (.mint "alice" [("res", some 20)]), .request (.create r)] ++ openingEvents 1) =
          some (log, m) ∧
      CleanRun {} (· ∈ ["abc"]) log m ∧ m.store.bond? "abc" = some b ∧ b.phase = .opened ∧
      b.supply = 1 ∧ m.balance b.reserveAddress "res" = 10 ∧ b.curve = .ok c ∧
      Market.handle {} (.sell { seller := "alice", amount := ⟨"abc", 1⟩ }) m =
        .error (.fault .divisionByZero) m := by
  intro r
  have hplay : (playClean {} ["abc"] [] {}
      ([.post (.mint "alice" [("res", some 20)]), .request (.create r)] ++ openingEvents 1)).any
      (fun s => (s.2.store.bond? "abc").any fun b => b.phase = .opened ∧ b.supply = 1 ∧
        s.2.balance b.reserveAddress "res" = 10 ∧
        b.curve = .ok (.augmented 19 Dec.zero) ∧
        (Market.handle {} (.sell { seller := "alice", amount := ⟨"abc", 1⟩ })).Sat s.2
          (fun _ _ => False) fun e m' => e = .fault .divisionByZero ∧ m' = s.2) = true := by
    decide +kernel
  obtain ⟨⟨log, m⟩, hplay, hcheck⟩ := (Option.any_eq_true _ _).1 hplay
  have hrun := (CleanRun.start Config.separate_default).of_playClean hplay
  obtain ⟨b, hb, hcheck⟩ := (Option.any_eq_true _ _).1 hcheck
  obtain ⟨hopen, hsupply, hreserve, hcurve, hsell⟩ := of_decide_eq_true hcheck
  obtain ⟨_, m', hsell, rfl, hm⟩ := hsell.exists_error
  rw [hm] at hsell
  exact ⟨⟨Dec.one, ⟨100000000000000000⟩, Dec.zero⟩, .augmented 19 Dec.zero, log, m, b,
    by decide +kernel, by decide +kernel, rfl, by decide +kernel, by decide +kernel,
    by decide +kernel, hplay, hrun, hb, hopen, hsupply, hreserve, hcurve, hsell⟩

end BondMarket
