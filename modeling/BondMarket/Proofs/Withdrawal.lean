import BondMarket.Market.Lifecycle
import BondMarket.Proofs.Admission

/-!
Withdrawals from a settled bond. A holder gives up all tokens of the bond and gets the share of the
reserve that falls to them out of the supply, rounded down. Where the supply covers what is held,
the reserve covers the share, and nothing can stop the withdrawal.
-/

namespace BondMarket

def Bond.Withdrawn (b b' : Bond) : Prop :=
  b.phase = .settled ∧ b'.phase = .settled ∧ b'.supply ≤ b.supply

namespace Market

variable {cfg : Config} {bonded : Denom → Prop} {fills : Denom → Nat} {m m' : Market}
  {token : Denom} {b : Bond} {β : Batch} {a : Account}

/-! ### Shares -/

section Share

variable {reserve owed : Coins} {held supply : Int}

theorem mul_fdiv_le {n : Int} (hn : 0 ≤ n) (hsupply : 0 < supply) (hle : held ≤ supply) :
    (n * held).fdiv supply ≤ n := by
  rw [Int.fdiv_eq_ediv_of_nonneg _ hsupply.le]
  exact Int.ediv_le_of_le_mul hsupply (Int.mul_le_mul_of_nonneg_left hle hn)

theorem mul_fdiv_lt {n : Int} (hn : 0 < n) (hsupply : 0 < supply) (hlt : held < supply) :
    (n * held).fdiv supply < n := by
  rw [Int.fdiv_eq_ediv_of_nonneg _ hsupply.le]
  exact Int.ediv_lt_of_lt_mul hsupply (Int.mul_lt_mul_of_pos_left hlt hn)

theorem proper_shares (hr : reserve.Proper) (hheld : 0 ≤ held) (hsupply : 0 ≤ supply) :
    Coins.Proper (Table.mapValues (fun _ n => (n * held).fdiv supply) reserve) :=
  Coins.proper_mapValues hr.distinct fun d n hn =>
    Int.fdiv_nonneg (Int.mul_nonneg (hr.nonneg d n hn) hheld) hsupply

theorem shareOf_eq_ok (hr : reserve.Proper) (hheld : 0 ≤ held) (hsupply : 0 ≤ supply)
    (h : shareOf reserve held supply = .ok owed) :
    owed.Proper ∧ ∀ d, owed.amountOf d = (reserve.amountOf d * held).fdiv supply := by
  obtain ⟨owed', hok, hproper, hamount⟩ :=
    Coins.normalize_spec (proper_shares hr hheld hsupply)
  unfold shareOf at h
  split at h
  · cases h
  · cases hok.symm.trans h
    refine ⟨hproper, fun d => ?_⟩
    rw [hamount, Coins.amountOf_mapValues, Coins.amountOf]
    cases Table.get? reserve d <;> simp

theorem exists_shareOf (hr : reserve.Proper) (hheld : 0 ≤ held) (hsupply : 0 < supply) :
    ∃ owed, shareOf reserve held supply = .ok owed := by
  obtain ⟨owed, hok, -⟩ := Coins.normalize_spec (proper_shares hr hheld hsupply.le)
  exact ⟨owed, by rw [shareOf, if_neg fun hzero => hsupply.ne' hzero.1, hok]⟩

end Share

/-! ### Withdrawals -/

/-- The share of the reserve of a bond that is due to a holder. -/
def due (m : Market) (token : Denom) (b : Bond) (a : Account) (d : Denom) : Int :=
  ((m.reserveOf b).amountOf d * m.balance a token).fdiv b.supply

theorem due_le (hs : m.ledger.Solvent) (hsupply : 0 < b.supply)
    (hle : m.balance a token ≤ b.supply) (d : Denom) :
    m.due token b a d ≤ m.balance b.reserveAddress d := by
  exact (mul_fdiv_le ((proper_reserveOf hs b).amountOf_nonneg d) hsupply hle).trans
    (amountOf_reserveOf_le hs b d)

/-- A holder has withdrawn from a settled bond. The tokens held are gone, from the holder and from
the supply, and the share that was due has gone from the reserve account to the holder. -/
structure Withdrew (token : Denom) (b : Bond) (a : Account) (owed : Coins) (m m' : Market) : Prop
    where
  apart : Apart token m m'
  before : Table.get? m.store.bonds token = some b
  settled : b.phase = .settled
  held_pos : 0 < m.balance a token
  after : ∃ reserve, Table.get? m'.store.bonds token =
    some (b.marked (b.supply - m.balance a token) reserve)
  batches : m'.store.batches = m.store.batches
  owed : ∀ d, owed.amountOf d = m.due token b a d
  holder : ∀ d, m'.balance a d =
    m.balance a d + m.due token b a d - if token = d then m.balance a token else 0
  reserve : ∀ d, m'.balance (reserveAccountFor token) d =
    m.balance (reserveAccountFor token) d - m.due token b a d
  others : ∀ u ≠ a, u ≠ reserveAccountFor token → ∀ d, m'.balance u d = m.balance u d

theorem Withdrew.worked {owed : Coins} (h : Withdrew token b a owed m m') :
    Worked token Bond.Withdrawn m m' := by
  obtain ⟨reserve, hafter⟩ := h.after
  exact ⟨h.apart, b, _, h.before, hafter, h.settled, h.settled,
    Int.sub_le_self _ h.held_pos.le⟩

theorem decideWithdrawal_eq_ok {r : WithdrawShare} {w : Withdrawal}
    (h : m.decideWithdrawal r = .ok w) :
    Table.get? m.store.bonds r.bondToken = some w.bond ∧ w.bond.phase = .settled ∧
      w.held = m.balance r.recipient r.bondToken ∧ w.held ≠ 0 ∧
      shareOf (m.reserveOf w.bond) w.held w.bond.supply = .ok w.owed := by
  simp only [decideWithdrawal, Result.bind_eq_ok] at h
  obtain ⟨_, -, b, hb, _, hphase, _, hheld, owed, howed, he⟩ := h
  cases he
  exact ⟨bondFor_eq_ok hb, not_not.1 (rejectIf_eq_ok_iff.1 hphase), rfl,
    rejectIf_eq_ok_iff.1 hheld, howed⟩

theorem exists_withdrawal (hs : m.ledger.Solvent) (hf : b.Formed token)
    (hb : Table.get? m.store.bonds token = some b) (hsettled : b.phase = .settled)
    (hsupply : 0 < b.supply) (hblank : Text.allBlank a = false) (hheld : 0 < m.balance a token) :
    ∃ w, m.decideWithdrawal { recipient := a, bondToken := token } = .ok w := by
  obtain ⟨owed, howed⟩ := exists_shareOf (proper_reserveOf hs b) hheld.le hsupply
  have hfound : m.bondFor token = .ok b := by simp [bondFor, Store.bond?, hb]
  refine ⟨⟨b, m.balance a token, owed⟩, ?_⟩
  simp [decideWithdrawal, WithdrawShare.check, Check.notBlank, checkPhase, rejectIf, hfound, hblank,
    hf.written, hsettled, hheld.ne', howed]

def withdrawalMoves (cfg : Config) (token : Denom) (a : Account) (held : Int) (owed : Coins) :
    List Move :=
  [⟨.burnWithdrawn, .burn cfg.mintBurnAccount [(token, some held)]⟩,
    ⟨.payShare, .transfer (reserveAccountFor token) a owed.entries⟩]

section Calls

variable {held : Int} {owed : Coins}

theorem proper_tokens (token : Denom) (hheld : 0 ≤ held) : Coins.Proper [(token, held)] := by
  refine ⟨by simp, fun d n hn => ?_⟩
  obtain ⟨-, rfl⟩ : d = token ∧ n = held := by simpa using hn
  exact hheld

theorem amountOf_tokens (token : Denom) (hheld : 0 ≤ held) (d : Denom) :
    CoinEntries.amountOf [(token, some held)] d = if token = d then held else 0 := by
  have hamount := CoinEntries.amountOf_entries (proper_tokens token hheld) d
  rwa [Coins.amountOf_cons, Coins.amountOf_nil] at hamount

theorem proper_withdrawalMoves (token : Denom) (hheld : 0 ≤ held) (howed : owed.Proper) :
    ∀ v ∈ withdrawalMoves cfg token a held owed, v.call.Proper := by
  intro v hv
  simp only [withdrawalMoves, List.mem_cons, List.not_mem_nil, or_false] at hv
  rcases hv with rfl | rfl
  · exact (proper_tokens token hheld).ofEntries_entries
  · exact howed.ofEntries_entries

theorem made_withdrawalMoves {token d : Denom} (hheld : 0 ≤ held) (hd : d ≠ token) :
    ∀ v ∈ withdrawalMoves cfg token a held owed, v.call.made d = 0 := by
  intro v hv
  simp only [withdrawalMoves, List.mem_cons, List.not_mem_nil, or_false] at hv
  rcases hv with rfl | rfl
  · rw [LedgerCall.made, amountOf_tokens token hheld, if_neg hd.symm, neg_zero]
  · rfl

/-- The tokens only pass through the minting account, where they are burned. -/
theorem flow_withdrawal (token : Denom) (ha : cfg.IsUser a) (hheld : 0 ≤ held)
    (howed : owed.Proper) (u : Account) (d : Denom) :
    LedgerCall.flow u d (.transfer a cfg.mintBurnAccount [(token, some held)]) +
        Move.flow u d (withdrawalMoves cfg token a held owed) =
      (if a = u then owed.amountOf d - (if token = d then held else 0) else 0) -
        if reserveAccountFor token = u then owed.amountOf d else 0 := by
  have hreserve := ha.ne_reserve token
  simp only [withdrawalMoves, LedgerCall.flow, Move.flow_cons, Move.flow_nil, add_zero,
    amountOf_tokens token hheld, CoinEntries.amountOf_entries howed]
  by_cases hu : a = u
  · subst hu
    simp only [hreserve.symm, ha.ne_mintBurn.symm, if_true, if_false]
    omega
  · simp only [hu, if_false]
    omega

theorem covered_withdrawal (token : Denom) (hsep : cfg.Separate) (ha : cfg.IsUser a)
    (hs : m.ledger.Solvent) (howed : owed.Proper)
    (hle : ∀ d, owed.amountOf d ≤ m.balance (reserveAccountFor token) d) :
    LedgerCall.Covered m.balance
        (.transfer a cfg.mintBurnAccount [(token, some (m.balance a token))]) ∧
      Move.Covered (fun u d => m.balance u d + LedgerCall.flow u d
          (.transfer a cfg.mintBurnAccount [(token, some (m.balance a token))]))
        (withdrawalMoves cfg token a (m.balance a token) owed) := by
  have hamount := amountOf_tokens token (hs a token)
  refine ⟨fun d => ?_, fun d => ?_, fun d => ?_, trivial⟩
  · rw [hamount]
    split
    · subst d
      exact le_rfl
    · exact hs a d
  · have hmint := hs cfg.mintBurnAccount d
    simp only [LedgerCall.flow, ha.ne_mintBurn, if_true, if_false, sub_zero]
    exact le_add_of_nonneg_left hmint
  · have := hle d
    simpa [LedgerCall.flow, CoinEntries.amountOf_entries howed, ha.ne_reserve,
      hsep.mintBurn_ne_reserve] using this

end Calls

/-- As long as tokens are left, a withdrawal leaves some of every reserve token of a pool. -/
theorem Stocked.withdraw (h : m.Stocked b) (hsettled : b.phase = .settled) {held : Int}
    (hheld : 0 ≤ held) {reserve : Coins}
    (hbalance : ∀ d ∈ b.reserveTokens, m'.balance b.reserveAddress d =
      m.balance b.reserveAddress d - (m.balance b.reserveAddress d * held).fdiv b.supply) :
    m'.Stocked (b.marked (b.supply - held) reserve) where
  confined hopen := absurd hsettled hopen
  positive hswap hmax hsupply d hd := by
    have hrest : held < b.supply := sub_pos.1 hsupply
    have hpos : 0 < b.supply := hheld.trans_lt hrest
    have hlt := mul_fdiv_lt (h.positive hswap hmax hpos d hd) hpos hrest
    exact (sub_pos.2 hlt).trans_eq (hbalance d hd).symm

/-- A withdrawal that has been decided goes through, unless the supply does not cover what is held.
-/
theorem withdrawShare_sat_of_decided (hsep : cfg.Separate) (h : Sound cfg bonded fills m)
    {r : WithdrawShare} (hr : cfg.IsUser r.recipient) {w : Withdrawal}
    (hw : m.decideWithdrawal r = .ok w) {E : Error → Market → Prop}
    (hE : w.bond.supply < w.held → ∀ e m', Refused m e m' → E e m') :
    (withdrawShare cfg r).Sat m
      (fun owed m' => Sound cfg bonded fills m' ∧
        Withdrew r.bondToken w.bond r.recipient owed m m') E := by
  obtain ⟨hb, hphase, hheldEq, hheldNe, howed⟩ := decideWithdrawal_eq_ok hw
  obtain ⟨-, β, hβ, hheld⟩ := h.kept.held _ w.bond hb
  have haddress := hheld.formed.address
  have hsolvent := h.kept.solvent
  have hpos : 0 < w.held := lt_of_le_of_ne (hheldEq ▸ hsolvent _ _) hheldNe.symm
  obtain ⟨hproper, hamountOwed⟩ := shareOf_eq_ok (proper_reserveOf hsolvent w.bond) hpos.le
    hheld.supply_nonneg howed
  have hdue (d : Denom) : w.owed.amountOf d = m.due r.bondToken w.bond r.recipient d := by
    rw [hamountOwed, hheldEq, due]
  have hflow := flow_withdrawal r.bondToken hr hpos.le hproper
  have hamount := amountOf_tokens r.bondToken hpos.le
  have hnone := hheld.settled hphase
  have hswaps : β.swaps = [] := by
    by_contra hne
    exact (h.trades _ w.bond β hb hβ hne).2.1 hphase
  have hhatch : w.bond.inHatch = false := by simp [Bond.inHatch, hphase]
  rw [withdrawShare, Action.sat_bind, Action.sat_get, Action.sat_bind, Action.sat_lift_of_ok hw]
  simp only [Action.sat_bind, Action.sat_pure, haddress]
  -- Handing in the tokens may be refused; what follows finds what it takes.
  refine revalue_sat h hb hβ (by omega) hswaps hhatch
    (c := .transfer r.recipient cfg.mintBurnAccount [(r.bondToken, some w.held)])
    (proper_tokens _ hpos.le).ofEntries_entries (proper_withdrawalMoves _ hpos.le hproper)
    (fun u hu d => (hflow _ d).trans ?_) (fun d => (hflow _ d).trans ?_) (fun _ => rfl)
    (fun d hd => made_withdrawalMoves hpos.le hd) ?_ ?_ (fun _ _ _ _ hopen => ?_)
    (fun m₁ reserve hpaid => ?_)
    (fun m' reserve hsound hapart hb' hbatches hbalance => ⟨hsound, ?_⟩)
    fun e m' hrefused huncovered => hE (by_contra fun hle => huncovered ?_) e m' hrefused
  · simp [hr.ne_reserve u, reserveAccountFor_inj, hu.symm]
  · simp [hr.ne_escrow, (hsep.escrow_ne_reserve _).symm]
  · simp [withdrawalMoves, LedgerCall.made, hamount]
  · have hbuys := hheld.buys_le
    omega
  · cases hphase.symm.trans hopen
  · refine (h.stocked _ _ hb).withdraw hphase hpos.le fun d hd => ?_
    have hshare : w.owed.amountOf d =
        (m.balance w.bond.reserveAddress d * w.held).fdiv w.bond.supply := by
      rw [hamountOwed, amountOf_reserveOf, if_pos hd]
    have hafter := (hpaid d).trans (congrArg _ (hflow _ d))
    simp only [haddress, hr.ne_reserve _, if_true, if_false] at hafter
    rw [← hshare, haddress]
    omega
  · exact {
      apart := hapart, before := hb, settled := hphase, held_pos := hheldEq ▸ hpos
      after := ⟨reserve, hheldEq ▸ hb'⟩, batches := hbatches, owed := hdue
      holder := fun d => by
        have hafter := (hbalance r.recipient d).trans (congrArg _ (hflow _ d))
        simp only [(hr.ne_reserve _).symm, if_true, if_false, hdue, hheldEq] at hafter
        omega
      reserve := fun d => by
        have hafter := (hbalance (reserveAccountFor r.bondToken) d).trans
          (congrArg _ (hflow _ d))
        simp only [hr.ne_reserve _, if_true, if_false, hdue] at hafter
        omega
      others := fun u hu hreserve d => by
        have hafter := (hbalance u d).trans (congrArg _ (hflow u d))
        simpa only [hu.symm, Ne.symm hreserve, if_false, sub_zero, add_zero] using hafter }
  · have hle := not_lt.1 hle
    have hcovered := covered_withdrawal r.bondToken hsep hr hsolvent hproper
      fun d => haddress ▸ hdue d ▸ due_le hsolvent (by omega) (hheldEq ▸ hle) d
    rw [← hheldEq] at hcovered
    exact ⟨hcovered.1, hcovered.2, by omega⟩

theorem withdrawShare_sat (hsep : cfg.Separate) (h : Sound cfg bonded fills m) (r : WithdrawShare)
    (hr : cfg.IsUser r.recipient) :
    (withdrawShare cfg r).Sat m
      (fun owed m' => Sound cfg bonded fills m' ∧
        ∃ b, Withdrew r.bondToken b r.recipient owed m m')
      (Refused m) := by
  cases hw : m.decideWithdrawal r with
  | error e =>
      rw [withdrawShare, Action.sat_bind, Action.sat_get, Action.sat_bind,
        Action.sat_lift_of_error hw]
      exact .same e
  | ok w =>
      exact (withdrawShare_sat_of_decided hsep h hr hw fun _ _ _ hrefused => hrefused).imp
        fun _ _ hs => ⟨hs.1, w.bond, hs.2⟩

theorem withdrawShare_eq_ok (hsep : cfg.Separate) (h : Sound cfg bonded fills m)
    (ha : cfg.IsUser a) (hblank : Text.allBlank a = false)
    (hb : Table.get? m.store.bonds token = some b) (hsettled : b.phase = .settled)
    (hheld : 0 < m.balance a token) (hle : m.balance a token ≤ b.supply) :
    ∃ owed m', withdrawShare cfg { recipient := a, bondToken := token } m = .ok owed m' ∧
      Sound cfg bonded fills m' ∧ Withdrew token b a owed m m' := by
  obtain ⟨w, hw⟩ :=
    exists_withdrawal h.kept.solvent (h.kept.formed hb) hb hsettled (hheld.trans_le hle)
    hblank hheld
  obtain ⟨hfound, -, hheldEq, -, -⟩ := decideWithdrawal_eq_ok hw
  obtain rfl : b = w.bond := Option.some.inj (hb.symm.trans hfound)
  have hcovers : ¬ w.bond.supply < w.held := by
    rw [hheldEq]
    exact not_lt.2 hle
  obtain ⟨owed, m', hrun, hs⟩ := (withdrawShare_sat_of_decided hsep h ha hw
    fun hlt _ _ _ => absurd hlt hcovers).exists_ok
  exact ⟨owed, m', hrun, hs⟩

end Market
end BondMarket
