import BondMarket.Proofs.Hatch

/-!
The end of a hatch. A bond is opened by the close that brings its supply to the end of its hatch,
the supply `S0` rounded up, and the reserve then holds what the flat price makes due at that supply.
From there on the bond follows its curve, which asks for `supply ^ kappa / V0` and meets the flat
price at `S0` itself, not at the supply rounded up. Where `S0` is a whole number the two agree up to
rounding; where it is not, the curve may ask for more than the hatch has raised. By how much is a
matter of integers, and is decided here.

The bond is opened all the same. Its prices are taken from the curve against what is actually held,
so that a difference to the curve goes to the next who mints or burns.
-/

namespace BondMarket

/-! ### The difference to the curve -/

/-- What is held of a reserve token makes no lasting difference to the curve: what it lacks is
charged with the next tokens that are minted, and what it has beyond the curve is paid with the next
that are burned. -/
structure Bond.Absorbs (b : Bond) (reserve : Coins) (d : Denom) (held : Int) : Prop where
  mint : ∀ n, ∃ target prices, b.reserveAt (b.supply + n) = .ok target ∧
    b.mintPrices n reserve = .ok prices ∧
    (prices.amountOf d).raw = max (target.raw - held * Dec.scale) 0
  burn : ∀ n, n ≤ b.supply → ∃ target returns, b.reserveAt (b.supply - n) = .ok target ∧
    b.burnReturns n reserve = .ok returns ∧
    (returns.amountOf d).raw = max (held * Dec.scale - target.raw) 0

theorem Bond.absorbs_of_curve {b : Bond} (hswap : b.isSwapper = false) (hhatch : b.inHatch = false)
    {c : Curve} (hc : b.curve = .ok c) (hr : ∀ s, ∃ target, c.reserveAt s = .ok target)
    (reserve : Coins) {d : Denom} (hd : d ∈ b.reserveTokens) :
    b.Absorbs reserve d (reserve.amountOf d) where
  mint n := by
    obtain ⟨target, ht⟩ := hr (b.supply + n)
    obtain ⟨prices, hprices, -, hamount⟩ := mintPrices_open reserve hswap hhatch hc ht
    exact ⟨target, prices, (reserveAt_of_curve hc _).trans ht, hprices, hamount d hd⟩
  burn n hn := by
    obtain ⟨target, ht⟩ := hr (b.supply - n)
    obtain ⟨returns, hreturns, -, hamount⟩ := burnReturns_curve reserve hswap hc hn ht
    exact ⟨target, returns, (reserveAt_of_curve hc _).trans ht, hreturns, hamount d hd⟩

/-! ### The curve after the hatch -/

/-- The curve that an augmented bond follows after its hatch: its exponent and the constants that
were derived from the raise, the flat price and the share that is funding. -/
structure Bond.Continues (b : Bond) (d0 p0 theta : Dec) (kappa : Nat) (k : HatchConstants) :
    Prop where
  raise : b.parameters.value "d0" = .ok d0
  curve : b.curve = .ok (.augmented kappa k.v0)
  reserve : b.parameters.value "R0" = .ok k.r0
  value : b.parameters.value "V0" = .ok k.v0
  r0_eq : k.r0 = d0 * (Dec.one - theta)
  s0_eq : d0.div p0 = .ok k.s0
  v0_eq : (k.s0.power kappa).div k.r0 = .ok k.v0

namespace Bond

variable {b : Bond} {d : Denom} {d0 p0 theta : Dec} {kappa : Nat} {k : HatchConstants}

theorem HatchTerms.exists_continues (h : b.HatchTerms) (ha : b.isAugmented = true)
    (hsold : b.SoldAt d p0 theta) :
    ∃ d0 kappa k, 0 ≤ d0.raw ∧ b.parameters.value "kappa" = .ok kappa ∧
      b.Continues d0 p0 theta kappa.truncInt.toNat k := by
  obtain ⟨ps, k, hvalid, hk, hb⟩ := h.derived
  have hvalue {name : String} (hname : name ∉ HatchConstants.names) :
      b.parameters.value name = ps.value name := by rw [hb, k.value_addTo ps hname]
  obtain ⟨d0, p0', theta', kappa, hparams⟩ := FunctionType.exists_hatchParams hvalid
  obtain rfl : p0' = p0 :=
    Except.ok.inj (hparams.price.symm.trans ((hvalue (by decide)).symm.trans hsold.price))
  obtain rfl : theta' = theta :=
    Except.ok.inj (hparams.share.symm.trans ((hvalue (by decide)).symm.trans hsold.share))
  obtain ⟨hr0, hs0, hv0⟩ := hparams.constants_iff.1 hk
  have htype := isAugmented_iff.1 ha
  have hkappa : (Dec.ofInt kappa).truncInt.toNat = kappa := by rw [Dec.truncInt_ofInt]; rfl
  refine ⟨Dec.ofInt d0, Dec.ofInt kappa, k, Dec.raw_ofInt_nonneg (Int.natCast_nonneg d0),
    (hvalue (by decide)).trans hparams.exponent, ?_⟩
  rw [hkappa]
  refine ⟨(hvalue (by decide)).trans hparams.raise, ?_, ?_, ?_, hr0, hs0, hv0⟩
  · rw [Bond.curve, htype, hb, hparams.curve_eq k]
  · simp [hb, HatchConstants.addTo, HatchConstants.toParams, Params.value, Table.get?_set]
  · simp [hb, HatchConstants.addTo, HatchConstants.toParams, Params.value, Table.get?_set]

theorem Continues.covers_iff (h : b.Continues d0 p0 theta kappa k) (hv0 : 0 < k.v0.raw)
    {supply : Int} (hsupply : 0 ≤ supply) :
    ∃ r, b.reserveAt supply = .ok r ∧ ∀ held : Int, r.floorInt ≤ held ↔
      2 * (supply ^ kappa * Dec.scale * Dec.scale) <
        (2 * ((held + 1) * Dec.scale) - 1) * k.v0.raw := by
  refine ⟨⟨roundHalfEven (supply ^ kappa * Dec.scale * Dec.scale) k.v0.raw⟩, ?_, fun held => ?_⟩
  · rw [Bond.reserveAt, h.curve, Result.ok_bind, Curve.reserveAt_augmented kappa hv0.ne']
  · have hnonneg : 0 ≤ supply ^ kappa * Dec.scale * Dec.scale :=
      mul_nonneg (mul_nonneg (pow_nonneg hsupply _) Dec.scale_pos.le) Dec.scale_pos.le
    have heven : (held + 1) * Dec.scale % 2 = 0 := by
      unfold Dec.scale
      omega
    rw [Dec.floorInt_le_iff, roundHalfEven_lt_iff hv0 hnonneg heven]

/-- Where the hatch ends at a whole number of tokens, what is due at its end covers the curve,
unless the value that the curve keeps is too small for its last place to tell anything. -/
theorem Continues.covers_of_whole (h : b.Continues d0 p0 theta kappa k) (hp0 : 0 ≤ p0.raw)
    (hd0 : 0 ≤ d0.raw) (hshare : theta.raw < Dec.scale) {supply : Int}
    (hwhole : p0.times supply = d0) (hsmall : k.r0.raw < (2 * Dec.scale - 1) * k.v0.raw) :
    2 * (supply ^ kappa * Dec.scale * Dec.scale) <
      (2 * ((hatchDue p0 theta supply + 1) * Dec.scale) - 1) * k.v0.raw := by
  obtain ⟨hp0ne, hs0⟩ := Dec.div_eq_ok h.s0_eq
  obtain ⟨hr0ne, hv0⟩ := Dec.div_eq_ok h.v0_eq
  have hp0pos : 0 < p0.raw := lt_of_le_of_ne hp0 (Ne.symm hp0ne)
  have hkeep : 0 ≤ (Dec.one - theta).raw := by
    rw [Dec.raw_sub, Dec.raw_one]
    omega
  have hr0pos : 0 < k.r0.raw :=
    lt_of_le_of_ne (h.r0_eq ▸ Dec.raw_mul_nonneg hd0 hkeep) (Ne.symm hr0ne)
  have hs0 : k.s0 = Dec.ofInt supply := by
    refine Dec.ext ?_
    rw [hs0, ← hwhole, Dec.raw_times, Dec.raw_ofInt, mul_assoc, mul_comm,
      roundHalfEven_mul_self hp0pos]
  rw [hs0, Dec.power_ofInt, Dec.raw_ofInt] at hv0
  have hdue : k.r0.raw ≤ hatchDue p0 theta supply * Dec.scale := by
    rw [h.r0_eq, ← hwhole]
    exact Dec.raw_le_ceilInt _
  have hv0pos : 0 ≤ k.v0.raw := by nlinarith [Dec.scale_pos]
  have hmul := mul_le_mul_of_nonneg_left hdue hv0pos
  have hbound := (roundHalfEven_bounds hr0pos (supply ^ kappa * Dec.scale * Dec.scale)).1
  rw [← hv0] at hbound
  calc 2 * (supply ^ kappa * Dec.scale * Dec.scale)
      ≤ 2 * (k.v0.raw * k.r0.raw) + k.r0.raw := hbound
    _ < 2 * (k.v0.raw * k.r0.raw) + (2 * Dec.scale - 1) * k.v0.raw :=
        Int.add_lt_add_left hsmall _
    _ ≤ 2 * (k.v0.raw * (hatchDue p0 theta supply * Dec.scale)) +
          (2 * Dec.scale - 1) * k.v0.raw := by linarith
    _ = (2 * ((hatchDue p0 theta supply + 1) * Dec.scale) - 1) * k.v0.raw := by ring

end Bond

/-- In every run, a cycle that moves a bond from its hatch to trading leaves its supply at the
end of the hatch, and its reserve account holds what the flat price makes due there. This covers
what the curve asks for at that supply exactly where the power of the supply, divided by `V0`, is
below the next unit by more than half of the last place. So it does where the hatch ends at a
whole number of tokens, if `V0` is not too small against `R0`. Covered or not, the difference
goes to the next who mints or burns. -/
theorem CleanRun.opening_covers_iff {cfg : Config} {bonded : Denom → Prop} {log : List Response}
    {m : Market} (h : CleanRun cfg bonded log m) {t : Denom} {b : Bond}
    (hb : m.store.bond? t = some b) {s : Settlement} {m' : Market}
    (hs : Market.elapseCycle cfg t m = .ok (some s) m') (hopened : s.newPhase = some .opened) :
    ∃ d d0 p0 theta kappa k b', b.SoldAt d p0 theta ∧ b.parameters.value "kappa" = .ok kappa ∧
      b.Continues d0 p0 theta kappa.truncInt.toNat k ∧
      m'.store.bond? t = some b' ∧ b'.phase = .opened ∧ b'.hatchLimit = .ok b'.supply ∧
      m'.balance b'.reserveAddress d = (p0.times b'.supply * (Dec.one - theta)).ceilInt ∧
      (0 < k.v0.raw → ∃ r, b'.reserveAt b'.supply = .ok r ∧
        (r.floorInt ≤ m'.balance b'.reserveAddress d ↔
          2 * (b'.supply ^ kappa.truncInt.toNat * Dec.scale * Dec.scale) <
            (2 * ((m'.balance b'.reserveAddress d + 1) * Dec.scale) - 1) * k.v0.raw) ∧
        (p0.times b'.supply = d0 → k.r0.raw < (2 * Dec.scale - 1) * k.v0.raw →
          r.floorInt ≤ m'.balance b'.reserveAddress d) ∧
        b'.Absorbs (m'.reserveOf b') d (m'.balance b'.reserveAddress d)) := by
  obtain ⟨hsep, hsound⟩ := h.sound
  obtain ⟨-, β, hβ, hheld⟩ := hsound.kept.held t b hb
  obtain ⟨-, hclosed⟩ := Market.elapseCycle_closed hsep hsound hb hβ hs
  obtain ⟨supply, r', b', hmatured, hb', hraised⟩ := hclosed.bond
  rw [hopened] at hmatured
  cases hmatured with
  | opened hhatch hlimit =>
      have ha := Bond.inHatch_isAugmented (b := b) hhatch
      have hterms := hheld.formed.hatch ha
      obtain ⟨d, p0, theta, hsold, hp0, -, hshare⟩ := hheld.formed.exists_soldAt ha
      obtain ⟨d0, kappa, k, hd0, hkappa, hcontinues⟩ := hterms.exists_continues ha hsold
      have hmem : d ∈ b.reserveTokens := by simp [hsold.tokens]
      have hdue := (hraised hhatch d hmem).symm.trans (hsold.hatchReserve_eq supply)
      have hreserve : m'.balance b.reserveAddress d = hatchDue p0 theta supply := Except.ok.inj hdue
      obtain ⟨-, _, -, hheld'⟩ := hclosed.sound.kept.held t _ hb'
      have hsupply : 0 ≤ supply := hheld'.supply_nonneg
      refine ⟨d, d0, p0, theta, kappa, k, _, hsold, hkappa, hcontinues, hb', rfl, hlimit, hreserve,
        fun hv0 => ?_⟩
      obtain ⟨r, hr, hcovers⟩ := hcontinues.covers_iff hv0 hsupply
      refine ⟨r, hr, hcovers _, fun hwhole hsmall => (hcovers _).2 ?_, ?_⟩
      · show _ < (2 * ((m'.balance b.reserveAddress d + 1) * Dec.scale) - 1) * k.v0.raw
        rw [hreserve]
        exact hcontinues.covers_of_whole hp0 hd0 hshare hwhole hsmall
      · let b' : Bond := { b with supply, reserve := r', phase := .opened, allowSells := true }
        have hopen : b'.inHatch = false := Bool.and_false _
        have hheld := (Market.amountOf_reserveOf m' b' d).trans (if_pos hmem)
        exact hheld ▸ Bond.absorbs_of_curve (b := b') (Bond.isSwapper_eq_false ha) hopen
          hcontinues.curve (fun s => ⟨_, Curve.reserveAt_augmented _ hv0.ne' s⟩) (m'.reserveOf b')
          hmem

/-- Ten tokens at a unit each end a hatch at a whole number. The reserve holds six units, and the
curve asks for no more. -/
theorem opening_covers_ten :
    ∃ log m b s m' b' r, CleanRun {} (· ∈ ["abc"]) log m ∧ m.store.bond? "abc" = some b ∧
      Market.elapseCycle {} "abc" m = .ok (some s) m' ∧ s.newPhase = some .opened ∧
      m'.store.bond? "abc" = some b' ∧ b'.supply = 10 ∧ b'.reserveAt b'.supply = .ok r ∧
      m'.balance b'.reserveAddress "res" = 6 ∧ r.floorInt ≤ 6 ∧
      b'.Absorbs (m'.reserveOf b') "res" 6 := by
  obtain ⟨log, m, hrun, hcheck⟩ := CleanRun.exists_of_playClean ["abc"]
    (hatchEvents ++ [.request (.buy {
      buyer := "alice", amount := ⟨"abc", 1⟩, maxPrices := [("res", some 1)] })])
    (fun m => (m.store.bond? "abc").any fun b =>
      (b.reserveTokens = ["res"] ∧ (b.parameters.value "p0").toOption = some Dec.one ∧
        (b.parameters.value "theta").toOption = some ⟨400000000000000000⟩ ∧
        (b.parameters.value "d0").toOption = some (Dec.ofInt 10) ∧
        (b.parameters.value "R0").toOption = some (Dec.ofInt 6) ∧
        (b.parameters.value "V0").toOption = some ⟨1666666666666666667⟩) ∧
      (Market.elapseCycle {} "abc").Sat m (fun s m' => s.any (fun s => s.newPhase = some .opened ∧
        (m'.store.bond? "abc").any fun b' => b'.supply = 10) = true) fun _ _ => False)
    (by decide +kernel)
  obtain ⟨b, hb, hcheck⟩ := (Option.any_eq_true _ _).1 hcheck
  obtain ⟨⟨htokens, hp0, htheta, hd0, hr0, hv0⟩, hcycle⟩ := of_decide_eq_true hcheck
  obtain ⟨_, m', hs, hafter⟩ := hcycle.exists_ok
  obtain ⟨s, rfl, hafter⟩ := (Option.any_eq_true _ _).1 hafter
  obtain ⟨hopened, hafter⟩ := of_decide_eq_true hafter
  obtain ⟨d, d0, p0, theta, kappa, k, b', hsold, -, hcontinues, hb', -, -, hdue, hcovers⟩ :=
    hrun.opening_covers_iff hb hs hopened
  rw [hb'] at hafter
  have hsupply : b'.supply = 10 := of_decide_eq_true hafter
  obtain rfl : d = "res" := by simpa [htokens] using hsold.tokens.symm
  rw [hsold.price] at hp0
  rw [hsold.share] at htheta
  rw [hcontinues.raise] at hd0
  rw [hcontinues.reserve] at hr0
  rw [hcontinues.value] at hv0
  obtain rfl : p0 = Dec.one := Option.some.inj hp0
  obtain rfl : theta = ⟨400000000000000000⟩ := Option.some.inj htheta
  obtain rfl : d0 = Dec.ofInt 10 := Option.some.inj hd0
  have hr0 : k.r0 = Dec.ofInt 6 := Option.some.inj hr0
  have hv0 : k.v0 = ⟨1666666666666666667⟩ := Option.some.inj hv0
  have hsix : m'.balance b'.reserveAddress "res" = 6 := by
    rw [hdue, hsupply]
    decide
  obtain ⟨r, hr, -, hcovered, habsorbs⟩ := hcovers (by rw [hv0]; decide)
  refine ⟨log, m, b, s, m', b', r, hrun, hb, hs, hopened, hb', hsupply, hr, hsix, ?_,
    hsix ▸ habsorbs⟩
  rw [← hsix]
  refine hcovered ?_ ?_
  · rw [hsupply]
    decide
  · rw [hr0, hv0]
    decide

/-- A bond whose hatch is to raise five units at two units a token, so that it ends at three tokens
and not at two and a half, with a buy of the three. The curve is a cubic. -/
def halfTokenEvents : List Event :=
  [.post (.mint "alice" [("res", some 6)]),
    .request (.create {
      token := "abc"
      name := "n"
      description := "d"
      creator := "z"
      functionType := "augmented_function"
      parameters := [("d0", Dec.ofInt 5), ("p0", Dec.ofInt 2), ("theta", ⟨200000000000000000⟩),
        ("kappa", Dec.ofInt 3)]
      reserveTokens := ["res"]
      txFee := Dec.zero
      exitFee := Dec.zero
      feeAddress := "fees"
      maxSupply := ⟨"abc", 1000⟩
      signers := ["z"] }),
    .request (.buy {
      buyer := "alice", amount := ⟨"abc", 3⟩, maxPrices := [("res", some 6)] })]

/-- The hatch ends half a token late: the reserve holds five units where the curve asks for more
than six. -/
theorem halfTokenEvents_uncovered :
    ∃ log m s m' b' r, playClean {} ["abc"] [] {} halfTokenEvents = some (log, m) ∧
      CleanRun {} (· ∈ ["abc"]) log m ∧
      Market.elapseCycle {} "abc" m = .ok (some s) m' ∧ s.newPhase = some .opened ∧
      m'.store.bond? "abc" = some b' ∧ b'.isAugmented = true ∧ b'.phase = .opened ∧
      (∃ v0, b'.parameters.value "V0" = .ok v0 ∧ 0 < v0.raw) ∧ b'.supply = 3 ∧
      b'.reserveAt b'.supply = .ok r ∧ m'.balance b'.reserveAddress "res" = 5 ∧
      ¬ r.floorInt ≤ m'.balance b'.reserveAddress "res" := by
  have hplay : (playClean {} ["abc"] [] {} halfTokenEvents).any (fun s =>
      (Market.elapseCycle {} "abc").Sat s.2 (fun s m' => s.any (fun s =>
        s.newPhase = some .opened ∧ (m'.store.bond? "abc").any fun b' =>
          b'.isAugmented = true ∧ b'.phase = .opened ∧ b'.supply = 3 ∧
          (b'.parameters.value "V0").toOption.any (fun v0 => 0 < v0.raw) ∧
          m'.balance b'.reserveAddress "res" = 5 ∧
          (b'.reserveAt b'.supply).toOption.any fun r => r.floorInt = 6) = true)
        fun _ _ => False) = true := by
    decide +kernel
  obtain ⟨⟨log, m⟩, hplay, hcheck⟩ := (Option.any_eq_true _ _).1 hplay
  have hrun := (CleanRun.start Config.separate_default).of_playClean hplay
  obtain ⟨_, m', hs, hafter⟩ := (of_decide_eq_true hcheck).exists_ok
  obtain ⟨s, rfl, hafter⟩ := (Option.any_eq_true _ _).1 hafter
  obtain ⟨hopened, hafter⟩ := of_decide_eq_true hafter
  obtain ⟨b', hb', hafter⟩ := (Option.any_eq_true _ _).1 hafter
  obtain ⟨haugmented, hphase, hsupply, hv0, hreserve, hcurve⟩ := of_decide_eq_true hafter
  obtain ⟨v0, hv0, hpositive⟩ := (Option.any_eq_true _ _).1 hv0
  obtain ⟨r, hr, hsix⟩ := (Option.any_eq_true _ _).1 hcurve
  refine ⟨log, m, s, m', b', r, hplay, hrun, hs, hopened, hb', haugmented, hphase,
    ⟨v0, Result.toOption_eq_some.1 hv0, of_decide_eq_true hpositive⟩, hsupply,
    Result.toOption_eq_some.1 hr, hreserve, ?_⟩
  rw [hreserve, of_decide_eq_true hsix]
  decide

end BondMarket
