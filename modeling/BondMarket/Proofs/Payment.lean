import BondMarket.Proofs.Shares

/-!
What becomes of an outcome payment. Withdrawals pay out reserve tokens only, and each takes of them
what falls to the tokens that are burned, so that the last one takes all. A payment in any other
denomination stays in the reserve account for good, and so does one that is made when nobody has a
token of the bond.
-/

namespace BondMarket

namespace Market

variable {cfg : Config} {bonded : Denom → Prop} {fills : Denom → Nat} {m m₁ m' : Market}
  {t : Denom} {b b₁ b' : Bond} {a : Account} {owed : Coins}

/-- What is left in the reserve account of a bond `b` that was settled in `m`: all that is in no
reserve token; everything, where there was no supply; and no reserve tokens, once the supply is
gone. -/
structure PayingOut (m : Market) (t : Denom) (b b' : Bond) (m' : Market) : Prop where
  bond : Table.get? m'.store.bonds t = some b'
  settled : b'.phase = .settled
  terms : b'.terms = b.terms
  foreign : ∀ d ∉ b.reserveTokens,
    m'.balance (reserveAccountFor t) d = m.balance (reserveAccountFor t) d
  unowned : b.supply = 0 → b'.supply = 0 ∧
    ∀ d, m'.balance (reserveAccountFor t) d = m.balance (reserveAccountFor t) d
  drained : 0 < b.supply → b'.supply = 0 →
    ∀ d ∈ b.reserveTokens, m'.balance (reserveAccountFor t) d = 0

theorem PayingOut.start (hb : Table.get? m.store.bonds t = some b) (hsettled : b.phase = .settled) :
    PayingOut m t b b m where
  bond := hb
  settled := hsettled
  terms := rfl
  foreign _ _ := rfl
  unowned hzero := ⟨hzero, fun _ => rfl⟩
  drained hpos hzero := absurd hzero hpos.ne'

theorem PayingOut.withdraw (h : PayingOut m t b b₁ m₁) (hf : b₁.Formed t)
    (hwithdrew : Withdrew t b₁ a owed m₁ m')
    (hcovered : m₁.balance a t ≤ b₁.supply) : ∃ b', PayingOut m t b b' m' := by
  obtain ⟨reserve, hafter⟩ := hwithdrew.after
  have htokens := Bond.reserveTokens_congr h.terms
  have hheld := hwithdrew.held_pos
  refine ⟨_, hafter, h.settled, h.terms, fun d hd => ?_, fun hzero => ?_, fun _ hgone d hd => ?_⟩
  · rw [hwithdrew.reserve, due_of_not_mem (htokens ▸ hd), sub_zero, h.foreign d hd]
  · have := (h.unowned hzero).1
    omega
  · -- The last withdrawal is of the whole supply.
    have hall : m₁.balance a t = b₁.supply := (sub_eq_zero.1 hgone).symm
    have hdue := due_of_mem (m := m₁) (a := a) hf (htokens ▸ hd)
    rw [hall, Int.mul_fdiv_cancel _ (by omega)] at hdue
    rw [hwithdrew.reserve, hdue, sub_self]

/-- An event leaves what is left to be paid out, or it is a withdrawal. -/
theorem PayingOut.event (h : PayingOut m t b b₁ m₁) (hsep : cfg.Separate)
    (hsound : Sound cfg bonded fills m₁) {log log' : List Response} {e : Event}
    (he : e.Clean cfg bonded) (hm : e.apply cfg log m₁ = some (log', m'))
    (hkept : Kept cfg bonded m') : ∃ b', PayingOut m t b b' m' := by
  obtain ⟨b', hb', hsettled, hterms, ⟨hsupply, hreserve⟩ | ⟨a, owed, -, hwithdrew⟩⟩ :=
    Event.apply_settled hsep hsound he hm h.bond h.settled
  · exact ⟨b', hb', hsettled, hterms.trans h.terms,
      fun d hd => (hreserve d).trans (h.foreign d hd),
      fun hzero => ⟨hsupply.trans (h.unowned hzero).1,
        fun d => (hreserve d).trans ((h.unowned hzero).2 d)⟩,
      fun hpos hgone d hd => (hreserve d).trans (h.drained hpos (hsupply.symm.trans hgone) d hd)⟩
  · obtain ⟨reserve, hafter⟩ := hwithdrew.after
    obtain ⟨-, β', -, hheld'⟩ := hkept.held t _ hafter
    exact h.withdraw (hsound.kept.formed h.bond) hwithdrew (sub_nonneg.1 hheld'.supply_nonneg)

end Market

theorem Leads.payingOut {cfg : Config} {bonded : Denom → Prop} {log log' : List Response}
    {m m' : Market} {es : List Event} {t : Denom} {b : Bond}
    (h : Leads cfg bonded log m es log' m') (hrun : CleanRun cfg bonded log m)
    (hb : Table.get? m.store.bonds t = some b) (hsettled : b.phase = .settled) :
    ∃ b', Market.PayingOut m t b b' m' := by
  induction h with
  | nil => exact ⟨b, .start hb hsettled⟩
  | snoc hleads he hm hbonded ih =>
      obtain ⟨b₁, hpaying⟩ := ih
      have hrun₁ := hleads.cleanRun hrun
      obtain ⟨hsep, hsound⟩ := hrun₁.sound
      exact hpaying.event hsep hsound he hm (hrun₁.step he hm hbonded).sound.2.kept

/-- When an outcome payment has settled a bond and its supply has come down to nothing, nothing is
left in its reserve account exactly if somebody had tokens when the payment was made and all of the
payment is in reserve tokens. -/
theorem CleanRun.payment_cleared_iff {cfg : Config} {bonded : Denom → Prop} {log : List Response}
    {m : Market} (h : CleanRun cfg bonded log m) {r : PayOutcome} (hr : cfg.IsUser r.sender)
    {answer : Response} {m₁ : Market} (hpay : Market.handle cfg (.pay r) m = .ok answer m₁)
    {es : List Event} {log' : List Response} {m' : Market}
    (hleads : Leads cfg bonded (log ++ [answer]) m₁ es log' m') :
    ∃ b b', m.store.bond? r.bondToken = some b ∧ m'.store.bond? r.bondToken = some b' ∧
      b'.phase = .settled ∧ (b'.supply = 0 →
        ((∀ d, m'.balance b'.reserveAddress d = 0) ↔
          0 < b.supply ∧ ∀ d, b.outcomePayment.amountOf d ≠ 0 → d ∈ b.reserveTokens)) := by
  obtain ⟨hsep, hsound⟩ := h.sound
  obtain ⟨payment, hpay', -⟩ := Action.map_eq_ok.1 hpay
  obtain ⟨hsound₁, b, hpaid⟩ := (Market.payOutcome_sat hsep hsound r hr).of_ok hpay'
  obtain ⟨-, β, -, hheld⟩ := hsound.kept.held _ b hpaid.before
  have hrun₁ : CleanRun cfg bonded (log ++ [answer]) m₁ := h.answered hpay hr hsound₁.kept
  obtain ⟨reserve, hafter⟩ := hpaid.after
  obtain ⟨b', hpaying⟩ := hleads.payingOut hrun₁ hafter rfl
  obtain ⟨-, hsound'⟩ := (hleads.cleanRun hrun₁).sound
  have hnonneg (d : Denom) : 0 ≤ m.balance (reserveAccountFor r.bondToken) d :=
    hsound.kept.solvent _ d
  refine ⟨b, b', hpaid.before, hpaying.bond, hpaying.settled, fun hgone => ?_⟩
  rw [(hsound'.kept.formed hpaying.bond).address]
  constructor
  · intro hempty
    refine ⟨lt_of_le_of_ne hheld.supply_nonneg fun hzero => ?_,
      fun d hd => by_contra fun hforeign => ?_⟩
    · -- Nobody can withdraw what has been paid.
      obtain ⟨d, hsome⟩ := hpaid.something
      have hsame := (hpaying.unowned hzero.symm).2 d
      rw [hempty, hpaid.reserve] at hsame
      have := hnonneg d
      omega
    · have hsame := hpaying.foreign d hforeign
      rw [hempty, hpaid.reserve] at hsame
      have := hnonneg d
      have := hheld.formed.payment.amountOf_nonneg d
      omega
  · rintro ⟨hpos, hcovered⟩ d
    by_cases hd : d ∈ b.reserveTokens
    · exact hpaying.drained hpos hgone d hd
    · have hzero : b.outcomePayment.amountOf d = 0 := by_contra fun hne => hd (hcovered d hne)
      have hnone := (hsound.stocked _ b hpaid.before).confined (by simp [hpaid.opened]) d hd
      rw [hheld.formed.address] at hnone
      rw [hpaying.foreign d hd, hpaid.reserve, hzero, add_zero, hnone]

theorem payment_cleared_three :
    ∃ log m answer m₁ es log' m' b', CleanRun {} (· ∈ ["abc"]) log m ∧
      Market.handle {} (.pay { sender := "carol", bondToken := "abc" }) m = .ok answer m₁ ∧
      Leads {} (· ∈ ["abc"]) (log ++ [answer]) m₁ es log' m' ∧
      m'.store.bond? "abc" = some b' ∧ b'.supply = 0 ∧ ∀ d, m'.balance b'.reserveAddress d = 0 := by
  have hplay : (playClean {} ["abc"] [] {} (heldEvents [("res", some 3)])).any (fun s =>
      (s.2.store.bond? "abc").any (fun b => b.supply = 7 ∧ b.reserveTokens = ["res"] ∧
        b.outcomePayment = [("res", 3)]) ∧
      (Market.handle {} (.pay { sender := "carol", bondToken := "abc" })).Sat s.2
        (fun answer m₁ => (playClean {} ["abc"] (s.1 ++ [answer]) m₁
          [.request (.withdraw { recipient := "alice", bondToken := "abc" })]).any (fun s' =>
            (s'.2.store.bond? "abc").any fun b' => b'.supply = 0) = true)
        fun _ _ => False) = true := by
    decide +kernel
  obtain ⟨⟨log, m⟩, hplay, hcheck⟩ := (Option.any_eq_true _ _).1 hplay
  have hrun := (CleanRun.start Config.separate_default).of_playClean hplay
  obtain ⟨hbond, hpaid⟩ := of_decide_eq_true hcheck
  obtain ⟨b, hb, hbond⟩ := (Option.any_eq_true _ _).1 hbond
  obtain ⟨hseven, htokens, hpayment⟩ := of_decide_eq_true hbond
  obtain ⟨answer, m₁, hpay, hlater⟩ := hpaid.exists_ok
  obtain ⟨⟨log', m'⟩, hlater, hgone⟩ := (Option.any_eq_true _ _).1 hlater
  obtain ⟨b', hb', hgone⟩ := (Option.any_eq_true _ _).1 hgone
  have hgone : b'.supply = 0 := of_decide_eq_true hgone
  have hleads := Leads.of_playClean hlater
  obtain ⟨b₀, b₁, hb₀, hb₁, -, hcleared⟩ := hrun.payment_cleared_iff (by decide) hpay hleads
  obtain rfl : b = b₀ := Option.some.inj (hb.symm.trans hb₀)
  obtain rfl : b' = b₁ := Option.some.inj (hb'.symm.trans hb₁)
  refine ⟨log, m, answer, m₁, _, log', m', b', hrun, hpay, hleads, hb', hgone,
    (hcleared hgone).2 ⟨by omega, fun d hd => ?_⟩⟩
  rw [hpayment, Coins.amountOf_cons] at hd
  have hres : "res" = d := by
    by_contra hne
    simp [hne] at hd
  simp [htokens, hres]

/-- Of a payment of three units of the reserve token and five of another denomination, the five stay
in the reserve account when nobody has tokens any more. -/
theorem heldEvents_stranded :
    ∃ log m b, playClean {} ["abc"] [] {} (heldEvents [("res", some 3), ("usd", some 5)] ++
        [.request (.pay { sender := "carol", bondToken := "abc" }),
          .request (.withdraw { recipient := "alice", bondToken := "abc" })]) = some (log, m) ∧
      CleanRun {} (· ∈ ["abc"]) log m ∧ m.store.bond? "abc" = some b ∧ b.phase = .settled ∧
      b.supply = 0 ∧ m.balance b.reserveAddress "usd" = 5 ∧
      ¬ ∀ d, m.balance b.reserveAddress d = 0 := by
  have hplay : (playClean {} ["abc"] [] {} (heldEvents [("res", some 3), ("usd", some 5)] ++
      [.request (.pay { sender := "carol", bondToken := "abc" }),
        .request (.withdraw { recipient := "alice", bondToken := "abc" })])).any (fun s =>
      (s.2.store.bond? "abc").any fun b => b.phase = .settled ∧ b.supply = 0 ∧
        s.2.balance b.reserveAddress "usd" = 5) = true := by
    decide +kernel
  obtain ⟨⟨log, m⟩, hplay, hcheck⟩ := (Option.any_eq_true _ _).1 hplay
  have hrun := (CleanRun.start Config.separate_default).of_playClean hplay
  obtain ⟨b, hb, hcheck⟩ := (Option.any_eq_true _ _).1 hcheck
  obtain ⟨hsettled, hgone, hfive⟩ := of_decide_eq_true hcheck
  refine ⟨log, m, b, hplay, hrun, hb, hsettled, hgone, hfive, fun hempty => ?_⟩
  rw [hempty] at hfive
  cases hfive

end BondMarket
