import BondMarket.Market.Admission
import BondMarket.Proofs.Power
import BondMarket.Proofs.Pricing

/-!
What the checks at the creation of a bond establish. Parameters that pass the checks of a family
make a curve in its range, and for an augmented bond also the terms of its hatch; a request that
passes its checks describes a bond with formed terms, without supply and without reserve.
-/

namespace BondMarket

namespace Dec

theorem div_eq_ok {a b q : Dec} (h : a.div b = .ok q) :
    b.raw ≠ 0 ∧ q.raw = roundHalfEven (a.raw * scale) b.raw := by
  unfold div at h
  split at h
  · cases h
  · cases h
    exact ⟨‹_›, rfl⟩

theorem div_nonneg {a b q : Dec} (ha : 0 ≤ a.raw) (hb : 0 ≤ b.raw) (h : a.div b = .ok q) :
    0 ≤ q.raw := by
  obtain ⟨hne, hq⟩ := div_eq_ok h
  rw [hq]
  exact roundHalfEven_nonneg (by omega) (Int.mul_nonneg ha scale_pos.le)

theorem truncInt_nonneg {d : Dec} (h : 0 ≤ d.raw) : 0 ≤ d.truncInt := Int.tdiv_nonneg h scale_pos.le

theorem raw_ofInt_mul (n : Int) (a : Dec) : (ofInt n * a).raw = n * a.raw := by
  rw [raw_mul, raw_ofInt, mul_right_comm, roundHalfEven_mul_self scale_pos]

theorem truncInt_ofInt (n : Int) : (ofInt n).truncInt = n := Int.mul_tdiv_cancel n scale_pos.ne'

theorem exists_ofInt {d : Dec} (h : 0 ≤ d.raw) (hzero : d.isZero = false)
    (hint : d.isInteger = true) : ∃ n : Nat, 0 < n ∧ d = ofInt n := by
  simp only [isZero, beq_eq_false_iff_ne, isInteger, beq_iff_eq] at hzero hint
  obtain ⟨n, hn⟩ := Int.dvd_of_emod_eq_zero hint
  have hpos : 0 < n := pos_of_mul_pos_right (by omega) scale_pos.le
  obtain ⟨n, rfl⟩ := Int.eq_ofNat_of_zero_le hpos.le
  exact ⟨n, by omega, ext (by rw [hn, raw_ofInt, mul_comm])⟩

end Dec

/-! ### Parameters of a family -/

namespace FunctionType

variable {t : FunctionType} {ps : Params}

theorem value_of_validate (h : t.validate ps = .ok ()) (name : String)
    (hname : name ∈ t.parameterNames) :
    ∃ v, Table.get? ps name = some v ∧ ps.value name = .ok v ∧ 0 ≤ v.raw := by
  simp only [validate, Result.bind_eq_ok] at h
  obtain ⟨_, hnames, _, hsigns, -⟩ := h
  have hkeys : name ∈ Table.keys ps := by
    unfold checkNames at hnames
    split at hnames
    · rename_i heq
      rw [← mem_sortedTexts, heq]
      exact mem_sortedTexts.2 hname
    · cases hnames
  obtain ⟨v, hv⟩ := Table.mem_keys_iff.1 hkeys
  obtain ⟨_, hsign, -⟩ := Table.get?_of_traverse hsigns hv
  have hnonneg := rejectIf_eq_ok_iff.1 hsign
  refine ⟨v, hv, by simp [Params.value, hv], ?_⟩
  simpa [Dec.isNegative] using hnonneg

theorem checkShape_of_validate (h : t.validate ps = .ok ()) : t.checkShape ps = .ok () := by
  simp only [validate, Result.bind_eq_ok] at h
  obtain ⟨_, -, _, -, hshape⟩ := h
  exact hshape

theorem require_eq_ok_iff {condition : Bool} {detail : String} {u : Unit} :
    require condition detail = .ok u ↔ condition = true := by
  cases condition <;> simp [require, rejectIf, reject]

/-- Parameters of the augmented family that pass: the raise and the exponent are positive integers,
the price is positive, and less than everything that is paid in the hatch is funding. -/
structure HatchParams (ps : Params) (d0 : Nat) (p0 theta : Dec) (kappa : Nat) : Prop where
  raise : ps.value "d0" = .ok (Dec.ofInt d0)
  raise_pos : 0 < d0
  price : ps.value "p0" = .ok p0
  price_pos : 0 < p0.raw
  share : ps.value "theta" = .ok theta
  share_nonneg : 0 ≤ theta.raw
  share_lt : theta < Dec.one
  exponent : ps.value "kappa" = .ok (Dec.ofInt kappa)
  exponent_pos : 0 < kappa

theorem exists_hatchParams (h : augmented.validate ps = .ok ()) :
    ∃ d0 p0 theta kappa, HatchParams ps d0 p0 theta kappa := by
  obtain ⟨d0, -, hd0, hd0nonneg⟩ := value_of_validate h "d0" (by decide)
  obtain ⟨p0, -, hp0, hp0nonneg⟩ := value_of_validate h "p0" (by decide)
  obtain ⟨theta, -, htheta, hthetanonneg⟩ := value_of_validate h "theta" (by decide)
  obtain ⟨kappa, -, hkappa, hkappanonneg⟩ := value_of_validate h "kappa" (by decide)
  have hshape := checkShape_of_validate h
  simp only [checkShape, hd0, hp0, htheta, hkappa, Result.ok_bind, Result.bind_eq_ok,
    require_eq_ok_iff, Bool.and_eq_true, Bool.not_eq_true', decide_eq_true_eq] at hshape
  obtain ⟨_, ⟨hd0ne, hd0int⟩, _, hp0ne, _, hless, hkappane, hkappaint⟩ := hshape
  have hp0ne : p0.raw ≠ 0 := by simpa [Dec.isZero] using hp0ne
  obtain ⟨d0, hd0pos, rfl⟩ := Dec.exists_ofInt hd0nonneg hd0ne hd0int
  obtain ⟨kappa, hkappapos, rfl⟩ := Dec.exists_ofInt hkappanonneg hkappane hkappaint
  exact ⟨d0, p0, theta, kappa, hd0, hd0pos, hp0, by omega, htheta, hthetanonneg, hless, hkappa,
    hkappapos⟩

end FunctionType

namespace Curve

variable {ps : Params}

theorem exists_power (h : FunctionType.power.validate ps = .ok ()) :
    ∃ c, ofParams .power ps = .ok c ∧ c.Proper := by
  obtain ⟨m, -, hm, hmnonneg⟩ := FunctionType.value_of_validate h "m" (by decide)
  obtain ⟨n, -, hn, hnnonneg⟩ := FunctionType.value_of_validate h "n" (by decide)
  obtain ⟨c, -, hc, hcnonneg⟩ := FunctionType.value_of_validate h "c" (by decide)
  refine ⟨.power m n.truncInt c, ?_, hmnonneg, Dec.truncInt_nonneg hnnonneg, hcnonneg⟩
  simp [ofParams, hm, hn, hc]

theorem exists_sigmoid (h : FunctionType.sigmoid.validate ps = .ok ()) :
    ∃ c, ofParams .sigmoid ps = .ok c ∧ c.Proper := by
  obtain ⟨a, -, ha, hanonneg⟩ := FunctionType.value_of_validate h "a" (by decide)
  obtain ⟨b, -, hb, hbnonneg⟩ := FunctionType.value_of_validate h "b" (by decide)
  obtain ⟨c, -, hc, hcnonneg⟩ := FunctionType.value_of_validate h "c" (by decide)
  have hshape := FunctionType.checkShape_of_validate h
  simp only [FunctionType.checkShape, hc, Result.ok_bind, FunctionType.require_eq_ok_iff] at hshape
  have hzero : c.isZero = false := by simpa using hshape
  refine ⟨.sigmoid a b c, ?_, hanonneg, hbnonneg, ?_⟩
  · simp [ofParams, ha, hb, hc, ofSigmoid, hzero]
  · have hne : c.raw ≠ 0 := by simpa [Dec.isZero] using hzero
    omega

theorem ofParams_augmented (k : HatchConstants) {kappa : Dec}
    (hkappa : ps.value "kappa" = .ok kappa) :
    ofParams .augmented (k.addTo ps) = .ok (.augmented kappa.truncInt k.v0) := by
  simp only [Params.value] at hkappa
  simp [ofParams, ofAugmented, HatchConstants.addTo, HatchConstants.toParams, Params.value,
    Table.get?_set, hkappa]

end Curve

theorem HatchConstants.ofParams_eq_ok_iff {ps : Params} {d0 p0 theta kappa : Dec} {n : Nat}
    {k : HatchConstants} (hd0 : ps.value "d0" = .ok d0) (hp0 : ps.value "p0" = .ok p0)
    (htheta : ps.value "theta" = .ok theta) (hkappa : ps.value "kappa" = .ok kappa)
    (hn : kappa.truncInt = n) :
    ofParams ps = .ok k ↔ k.r0 = d0 * (Dec.one - theta) ∧ d0.div p0 = .ok k.s0 ∧
      (k.s0.power n).div k.r0 = .ok k.v0 := by
  simp only [ofParams, hd0, hp0, htheta, hkappa, hn, Dec.powerInt_natCast, Result.ok_bind,
    Result.bind_eq_ok]
  constructor
  · rintro ⟨s0, hs0, v0, hv0, hk⟩
    cases hk
    exact ⟨rfl, hs0, hv0⟩
  · rintro ⟨hr0, hs0, hv0⟩
    exact ⟨k.s0, hs0, k.v0, hr0 ▸ hv0, by rw [← hr0]; rfl⟩

namespace FunctionType.HatchParams

variable {ps : Params} {d0 : Nat} {p0 theta : Dec} {kappa : Nat} {k : HatchConstants}

theorem constants_iff (h : HatchParams ps d0 p0 theta kappa) :
    HatchConstants.ofParams ps = .ok k ↔
      k.r0 = Dec.ofInt d0 * (Dec.one - theta) ∧ (Dec.ofInt d0).div p0 = .ok k.s0 ∧
        (k.s0.power kappa).div k.r0 = .ok k.v0 :=
  HatchConstants.ofParams_eq_ok_iff h.raise h.price h.share h.exponent (Dec.truncInt_ofInt _)

/-- The product with a whole number is exact, so that something is kept of every raise. -/
theorem kept_pos (h : HatchParams ps d0 p0 theta kappa) :
    0 < (Dec.ofInt d0 * (Dec.one - theta)).raw := by
  have hless : theta.raw < Dec.scale := h.share_lt
  have hpos := h.raise_pos
  rw [Dec.raw_ofInt_mul, Dec.raw_sub, Dec.raw_one]
  exact mul_pos (by omega) (by omega)

theorem exists_constants (h : HatchParams ps d0 p0 theta kappa) :
    ∃ k, HatchConstants.ofParams ps = .ok k := by
  obtain ⟨s0, hs0⟩ : ∃ s0, (Dec.ofInt d0).div p0 = .ok s0 :=
    ⟨_, Dec.div_of_ne_zero h.price_pos.ne'⟩
  obtain ⟨v0, hv0⟩ : ∃ v0, (s0.power kappa).div (Dec.ofInt d0 * (Dec.one - theta)) = .ok v0 :=
    ⟨_, Dec.div_of_ne_zero h.kept_pos.ne'⟩
  exact ⟨⟨_, s0, v0⟩, h.constants_iff.2 ⟨rfl, hs0, hv0⟩⟩

theorem r0_pos (h : HatchParams ps d0 p0 theta kappa)
    (hk : HatchConstants.ofParams ps = .ok k) : 0 < k.r0.raw :=
  (h.constants_iff.1 hk).1 ▸ h.kept_pos

theorem s0_nonneg (h : HatchParams ps d0 p0 theta kappa)
    (hk : HatchConstants.ofParams ps = .ok k) : 0 ≤ k.s0.raw :=
  Dec.div_nonneg (Dec.raw_ofInt_nonneg (Int.natCast_nonneg d0)) h.price_pos.le
    (h.constants_iff.1 hk).2.1

theorem v0_nonneg (h : HatchParams ps d0 p0 theta kappa)
    (hk : HatchConstants.ofParams ps = .ok k) : 0 ≤ k.v0.raw :=
  Dec.div_nonneg (Dec.power_nonneg (h.s0_nonneg hk) kappa) (h.r0_pos hk).le
    (h.constants_iff.1 hk).2.2

theorem curve_eq (h : HatchParams ps d0 p0 theta kappa) (k : HatchConstants) :
    Curve.ofParams .augmented (k.addTo ps) = .ok (.augmented kappa k.v0) := by
  rw [Curve.ofParams_augmented k h.exponent, Dec.truncInt_ofInt]

end FunctionType.HatchParams

theorem Curve.exists_augmented {ps : Params} (h : FunctionType.augmented.validate ps = .ok ())
    {k : HatchConstants} (hk : HatchConstants.ofParams ps = .ok k) :
    ∃ c, ofParams .augmented (k.addTo ps) = .ok c ∧ c.Proper := by
  obtain ⟨d0, p0, theta, kappa, hparams⟩ := FunctionType.exists_hatchParams h
  exact ⟨_, hparams.curve_eq k, by exact_mod_cast hparams.exponent_pos, hparams.v0_nonneg hk⟩

/-- The constants do not hide the parameters that they are added to. -/
theorem HatchConstants.value_addTo (k : HatchConstants) (ps : Params) {name : String}
    (hname : name ∉ HatchConstants.names) : (k.addTo ps).value name = ps.value name := by
  simp only [names, List.mem_cons, List.not_mem_nil, or_false, not_or] at hname
  obtain ⟨hr, hs, hv⟩ := hname
  simp [addTo, toParams, Params.value, Table.get?_set, Ne.symm hr, Ne.symm hs, Ne.symm hv]

theorem HatchConstants.terms_addTo {b : Bond} {ps : Params} {k : HatchConstants}
    (h : FunctionType.augmented.validate ps = .ok ()) (hk : HatchConstants.ofParams ps = .ok k)
    (hb : b.parameters = k.addTo ps) : b.HatchTerms := by
  obtain ⟨d0, p0, theta, kappa, hparams⟩ := FunctionType.exists_hatchParams h
  refine ⟨⟨p0, ?_, hparams.price_pos.le⟩, ⟨theta, ?_, hparams.share_nonneg, hparams.share_lt⟩,
    ⟨k.s0, ?_⟩, ⟨ps, k, h, hk, hb⟩⟩
  · rw [hb, k.value_addTo ps (by decide), hparams.price]
  · rw [hb, k.value_addTo ps (by decide), hparams.share]
  · simp [hb, addTo, toParams, Params.value, Table.get?_set]

/-! ### The checks of a request -/

theorem Check.reserveTokens_spec {token : Denom} {seen ds : List Denom}
    (h : Check.reserveTokens token seen ds = .ok ()) :
    ds.Nodup ∧ (∀ d ∈ ds, d ∉ seen) ∧ "" ∉ ds ∧ token ∉ ds := by
  induction ds generalizing seen with
  | nil => exact ⟨List.nodup_nil, by simp, by simp, by simp⟩
  | cons d ds ih =>
      simp only [Check.reserveTokens, Result.bind_eq_ok] at h
      obtain ⟨_, htoken, _, hseen, _, hvalid, hrest⟩ := h
      obtain ⟨hdistinct, hnot, hnamed, hapart⟩ := ih hrest
      have hd : d ≠ "" := by
        rintro rfl
        exact rejectIf_eq_ok_iff.1 hvalid (by decide)
      have hne : d ≠ token := rejectIf_eq_ok_iff.1 htoken
      refine ⟨List.nodup_cons.2 ⟨fun hmem => ?_, hdistinct⟩, fun d' hd' => ?_, ?_, ?_⟩
      · exact hnot d hmem List.mem_cons_self
      · rcases List.mem_cons.1 hd' with rfl | hd'
        · exact rejectIf_eq_ok_iff.1 hseen
        · exact fun hmem => hnot d' hd' (List.mem_cons_of_mem _ hmem)
      · simpa [hd.symm] using hnamed
      · simpa [hne.symm] using hapart

/-- What the checks of a request to create a bond establish. -/
structure CreateBond.Checked (r : CreateBond) (t : FunctionType) : Prop where
  written : Text.allBlank r.token = false
  parameters : t.validate r.parameters = .ok ()
  distinct : r.reserveTokens.Nodup
  named : "" ∉ r.reserveTokens
  apart : r.token ∉ r.reserveTokens
  count : r.reserveTokens.length = t.reserveTokenCount
  txFee : 0 ≤ r.txFee.raw
  exitFee : 0 ≤ r.exitFee.raw
  blocks : 0 < r.batchBlocks.getD 1
  maxSupply : 0 < r.maxSupply.amount

theorem CreateBond.checked_of_check {r : CreateBond} {t : FunctionType} (h : r.check = .ok t) :
    r.Checked t := by
  simp only [CreateBond.check, Result.bind_eq_ok] at h
  obtain ⟨_, htoken, _, -, _, -, _, -, _, -, _, -, _, -, t', -, _, hparameters, _, htokens, _,
    hcount, _, -, _, -, _, -, _, htx, _, hexit, _, -, _, hblocks, _, hmax, _, -, ht⟩ := h
  cases ht
  obtain ⟨hdistinct, -, hnamed, hapart⟩ := Check.reserveTokens_spec htokens
  exact {
    written := Bool.eq_false_iff.2 (rejectIf_eq_ok_iff.1 htoken)
    parameters := hparameters, distinct := hdistinct, named := hnamed, apart := hapart
    count := not_not.1 (rejectIf_eq_ok_iff.1 hcount)
    txFee := by simpa [Dec.isNegative] using rejectIf_eq_ok_iff.1 htx
    exitFee := by simpa [Dec.isNegative] using rejectIf_eq_ok_iff.1 hexit
    blocks := not_le.1 (rejectIf_eq_ok_iff.1 hblocks)
    maxSupply := by exact_mod_cast not_le.1 (rejectIf_eq_ok_iff.1 hmax) }

/-- A bond as it is created: its terms are formed, nothing of it is in circulation, and a bond that
starts in its hatch lets no sells in and has not passed the end of it. -/
structure Bond.Fresh (r : CreateBond) (b : Bond) : Prop where
  formed : b.Formed r.token
  feeAddress : b.feeAddress = r.feeAddress
  supply : b.supply = 0
  reserve : b.reserve = []
  maxSupply : 0 ≤ b.maxSupply
  hatch : b.inHatch = true → b.allowSells = false
  room : b.inHatch = true → ∃ limit, b.hatchLimit = .ok limit ∧ 0 ≤ limit
  phase : b.phase = if b.isAugmented then .hatch else .opened

theorem Bond.Fresh.phase_cases {r : CreateBond} {b : Bond} (h : b.Fresh r) :
    b.phase ≠ .settled ∧ (b.phase = .hatch → b.isAugmented = true) := by
  rw [h.phase]
  cases b.isAugmented <;> simp

theorem Bond.supply_le_of_violations {b : Bond} (h : b.violations = .ok [])
    (hhatch : b.inHatch = true) : ∃ limit, b.hatchLimit = .ok limit ∧ b.supply ≤ limit := by
  simp only [violations, hhatch, if_true, Result.bind_eq_ok] at h
  obtain ⟨limit, hlimit, hnone⟩ := h
  refine ⟨limit, hlimit, ?_⟩
  by_contra hlt
  rw [if_pos (not_le.1 hlt)] at hnone
  simp at hnone

theorem Bond.make_eq_ok {b b' : Bond} {orderLimits outcomePayment reserve : CoinEntries}
    (h : b.make orderLimits outcomePayment reserve = .ok b') :
    ∃ limits payment r, Coins.ofEntries outcomePayment = .ok payment ∧
      Coins.ofEntries reserve = .ok r ∧
      b' = { b with
        reserveAddress :=
          if b.reserveAddress = "" then reserveAccountFor b.token else b.reserveAddress
        orderLimits := limits, outcomePayment := payment, reserve := r } ∧
      b'.violations = .ok [] := by
  simp only [Bond.make, Result.bind_eq_ok] at h
  obtain ⟨limits, -, payment, hpayment, r, hr, vs, hvs, h⟩ := h
  cases vs with
  | nil =>
      cases h
      exact ⟨limits, payment, r, hpayment, hr, rfl, hvs⟩
  | cons v vs => cases h

/-- The bond that a request describes, with given parameters, before its coins are brought into
normal form. -/
def CreateBond.draft (r : CreateBond) (cfg : Config) (t : FunctionType) (parameters : Params) :
    Bond where
  token := r.token
  name := r.name
  description := r.description
  creator := r.creator
  functionType := t
  parameters
  reserveTokens := r.reserveTokens
  txFee := r.txFee
  exitFee := r.exitFee
  feeAddress := r.feeAddress
  maxSupply := r.maxSupply.amount
  reserveAddress := ""
  sanityRate := r.sanityRate
  sanityMargin := r.sanityMargin
  allowSells := if t = .augmented then false else r.allowSells
  signers := r.signers
  batchBlocks := r.batchBlocks.getD cfg.defaultBlocks
  phase := if t = .augmented then .hatch else .opened

/-- The parameters of a bond that is created make its curve and, if it is augmented, the terms of
its hatch. -/
structure CreateBond.Terms (t : FunctionType) (parameters : Params) : Prop where
  curve : t ≠ .swapper → ∃ c, Curve.ofParams t parameters = .ok c ∧ c.Proper
  hatch : t = .augmented → ∀ b : Bond, b.parameters = parameters → b.HatchTerms

theorem CreateBond.build_eq_ok {r : CreateBond} {cfg : Config} {t : FunctionType} {b : Bond}
    (hc : t.validate r.parameters = .ok ()) (h : r.build cfg t = .ok b) :
    ∃ ps, CreateBond.Terms t ps ∧
      (t = .augmented →
        ∃ k, HatchConstants.ofParams r.parameters = .ok k ∧ ps = k.addTo r.parameters) ∧
      (r.draft cfg t ps).make r.orderLimits r.outcomePayment [] = .ok b := by
  by_cases haugmented : t = .augmented
  · subst haugmented
    simp only [CreateBond.build, if_true, Result.bind_eq_ok] at h
    obtain ⟨k, hk, _, hps, h⟩ := h
    cases hps
    exact ⟨k.addTo r.parameters, ⟨fun _ => Curve.exists_augmented hc hk,
      fun _ b hb => HatchConstants.terms_addTo hc hk hb⟩, fun _ => ⟨k, hk, rfl⟩, h⟩
  · simp only [CreateBond.build, haugmented, if_false, Result.pure_eq_ok, Result.ok_bind] at h
    have hdraft : (r.draft cfg t r.parameters).make r.orderLimits r.outcomePayment [] = .ok b := by
      simpa only [draft, haugmented, if_false] using h
    refine ⟨r.parameters, ⟨fun hswap => ?_, fun ht => absurd ht haugmented⟩,
      fun ht => absurd ht haugmented, hdraft⟩
    cases t with
    | power => exact Curve.exists_power hc
    | sigmoid => exact Curve.exists_sigmoid hc
    | augmented => exact absurd rfl haugmented
    | swapper => exact absurd rfl hswap

theorem CreateBond.build_fresh {r : CreateBond} {cfg : Config} {t : FunctionType} {b : Bond}
    (hc : r.Checked t) (hcfg : 0 < cfg.defaultBlocks)
    (hpayment : (Table.keys r.outcomePayment).Nodup) (h : r.build cfg t = .ok b) : b.Fresh r := by
  have hblocks : 0 ≤ r.batchBlocks.getD cfg.defaultBlocks := by
    have := hc.blocks
    cases hr : r.batchBlocks with
    | none => exact hcfg.le
    | some n =>
        rw [hr] at this
        exact this.le
  obtain ⟨ps, hterms, -, hmake⟩ := build_eq_ok hc.parameters h
  obtain ⟨limits, payment, reserve, hpay, hreserve, rfl, hclean⟩ := Bond.make_eq_ok hmake
  cases hreserve
  have hswap (hs : (r.draft cfg t ps).isSwapper = false) : t ≠ .swapper := by
    rintro rfl
    cases hs
  have haugmented (ha : (r.draft cfg t ps).isAugmented = true) : t = .augmented :=
    Bond.isAugmented_iff.1 ha
  -- What the checks have seen of the request, the draft takes over unchanged.
  refine {
    formed := {
      token_eq := rfl, written := hc.written, address := rfl, distinct := hc.distinct
      named := hc.named, apart := hc.apart, count := hc.count, txFee := hc.txFee
      exitFee := hc.exitFee, blocks := hblocks
      curve := fun hs => hterms.curve (hswap hs)
      hatch := fun ha => hterms.hatch (haugmented ha) _ rfl
      payment := Coins.proper_of_ofEntries hpay hpayment }
    feeAddress := rfl, supply := rfl, reserve := rfl, maxSupply := Int.natCast_nonneg _
    hatch := fun hh => if_pos (haugmented (Bond.inHatch_isAugmented hh))
    room := Bond.supply_le_of_violations hclean
    phase := ?_ }
  show (if t = .augmented then Phase.hatch else .opened) =
    if (t == .augmented) = true then .hatch else .opened
  simp only [beq_iff_eq]

end BondMarket
