import BondMarket.Proofs.Admission
import BondMarket.Proofs.Closing
import BondMarket.Proofs.Creation
import BondMarket.Proofs.Edits

/-!
The life of a bond. A bond that is created finds its accounts empty, since nobody can have paid
into the reserve of a bond that does not exist. An edit changes nothing that the books look at. An
outcome payment settles a bond that has no pending orders.
-/

namespace BondMarket

/-! ### What becomes of a bond -/

namespace Bond

def Edited (b b' : Bond) : Prop := b'.phase = b.phase ∧ b'.supply = b.supply

def PaidOut (b b' : Bond) : Prop := b.phase = .opened ∧ b'.phase = .settled

end Bond

namespace Market

variable {cfg : Config} {bonded : Denom → Prop} {fills : Denom → Nat} {m m₁ : Market}
  {token : Denom} {b : Bond} {β : Batch}

/-! ### Creation -/

theorem dropZeros_reserveOf (h : ∀ d ∈ b.reserveTokens, m.balance b.reserveAddress d = 0) :
    (m.reserveOf b).dropZeros = [] := by
  refine List.filter_eq_nil_iff.2 fun p hp => ?_
  have hzero : p.2 = 0 := by
    rw [← Coins.amountOf_of_mem (nodup_keys_reserveOf m b) hp, amountOf_reserveOf]
    split
    · exact h p.1 ‹_›
    · rfl
  simp [hzero]

theorem Held.fresh {r : CreateBond} (hb : b.Fresh r) (hfee : cfg.IsUser r.feeAddress)
    (hzero : ∀ d, m.balance (reserveAccountFor r.token) d = 0)
    (htotal : m.ledger.totalSupply r.token = 0) (blocks : Nat) :
    Held cfg m r.token b (Batch.blank r.token blocks) where
  formed := hb.formed
  feeUser := hb.feeAddress ▸ hfee
  orders := .blank blocks
  supply_nonneg := hb.supply.ge
  sells_le := hb.supply.ge
  buys_le := by
    rw [hb.supply]
    exact hb.maxSupply
  family := hb.phase_cases.2
  hatch hh := ⟨hb.hatch hh, rfl⟩
  room hh := by
    rw [hb.supply]
    exact hb.room hh
  settled hs := absurd hs hb.phase_cases.1
  minted := by
    rw [htotal, hb.supply]
    rfl
  synced := by rw [hb.reserve, dropZeros_reserveOf fun d _ => hb.formed.address ▸ hzero d]

theorem Backed.fresh {r : CreateBond} (hb : b.Fresh r)
    (hzero : ∀ d, m.balance (reserveAccountFor r.token) d = 0) (n : Nat) : m.Backed b n := by
  intro htype _ _
  obtain ⟨c, hc, hproper⟩ := hb.formed.curve (Bond.not_swapper_hatch htype).1
  have hintegral := Bond.isIntegral_of_curve htype hc
  refine ⟨Dec.zero, ?_, fun d _ => ?_⟩
  · rw [Bond.reserveAt_of_curve hc, hb.supply, Curve.reserveAt_zero hproper hintegral]
  · rw [hb.formed.address, hzero, zero_mul, Dec.raw_zero, zero_add]
    exact ⟨le_rfl, Int.mul_nonneg (by omega) Dec.scale_pos.le⟩

theorem Stocked.fresh {r : CreateBond} (hb : b.Fresh r)
    (hzero : ∀ d, m.balance (reserveAccountFor r.token) d = 0) : m.Stocked b where
  confined _ d _ := by rw [hb.formed.address, hzero]
  positive _ _ hsupply := absurd hb.supply hsupply.ne'

/-- Before the first buy a hatch has what is due. -/
theorem Hatching.fresh {r : CreateBond} (hb : b.Fresh r)
    (hzero : ∀ d, m.balance (reserveAccountFor r.token) d = 0)
    (hlast : Table.get? m.store.lastBatches r.token = none) (hhatch : b.inHatch = true)
    (blocks : Nat) : m.Hatching b (Batch.blank r.token blocks) where
  unsold γ hγ := by
    rw [hb.formed.token_eq, hlast] at hγ
    cases hγ
  raised d _ := by
    rw [hb.supply, hb.formed.address, hzero]
    exact Bond.hatchReserve_zero (hb.formed.hatch (Bond.inHatch_isAugmented hhatch))
  isOpen _ ho := (List.not_mem_nil ho).elim
  pays _ ho := (List.not_mem_nil ho).elim

theorem pledged_insert (hnone : Table.get? m.store.bonds token = none) (b : Bond) (blocks : Nat)
    (d : Denom) :
    ((m.withBond token b).withBatch token (Batch.blank token blocks)).pledged d = m.pledged d := by
  have hnot := Table.get?_eq_none_iff.1 hnone
  have hkeys : Table.keys ((m.withBond token b).withBatch token
      (Batch.blank token blocks)).store.bonds = Table.keys m.store.bonds ++ [token] := by
    rw [withBatch_bonds, withBond, Table.keys_set, if_neg hnot]
  have hself : ((m.withBond token b).withBatch token (Batch.blank token blocks)).pledgedBy token d =
      0 := pledgedBy_of_get? (get?_withBatch ..) d
  have hother : ∀ t ∈ Table.keys m.store.bonds, ((m.withBond token b).withBatch token
      (Batch.blank token blocks)).pledgedBy t d = m.pledgedBy t d := by
    intro t ht
    have hne : token ≠ t := by
      rintro rfl
      exact hnot ht
    simp only [pledgedBy, withBatch, Store.setBatch, Table.get?_set_of_ne _ hne, withBond_batches]
  rw [pledged, hkeys, List.map_append, List.sum_append, List.map_congr_left hother]
  simp [hself, pledged]

theorem Sound.create (h : Sound cfg bonded fills m) {r : CreateBond} (hb : b.Fresh r)
    (hnone : Table.get? m.store.bonds r.token = none) (hbonded : bonded r.token)
    (hfee : cfg.IsUser r.feeAddress) (blocks : Nat) :
    Sound cfg bonded fills
      ((m.withBond r.token b).withBatch r.token (Batch.blank r.token blocks)) := by
  obtain ⟨hzero, htotal, hlast⟩ := h.kept.vacant _ hnone
  set m' := (m.withBond r.token b).withBatch r.token (Batch.blank r.token blocks)
  have hself : Table.get? m'.store.bonds r.token = some b := get?_withBond ..
  have hbatch : Table.get? m'.store.batches r.token = some (Batch.blank r.token blocks) :=
    get?_withBatch ..
  have hother (t : Denom) (ht : t ≠ r.token) :
      Table.get? m'.store.bonds t = Table.get? m.store.bonds t ∧
        Table.get? m'.store.batches t = Table.get? m.store.batches t :=
    ⟨Table.get?_set_of_ne _ (Ne.symm ht) _, Table.get?_set_of_ne _ (Ne.symm ht) _⟩
  -- The new bond is looked at by itself: its reserve account and its total were vacant. Every other
  -- bond is as it was.
  refine ⟨⟨h.kept.refusals, ?_, h.kept.solvent, fun t b' ht => ?_, fun t ht => ?_, fun d => ?_⟩,
    fun t b' β ht hβ => ?_, fun t b' β ht hβ => ?_, fun t b' β ht hβ hhatch => ?_,
    fun t b' ht => ?_, fun t b' ht => ?_⟩
  · exact Table.nodup_keys_set h.kept.distinct _ _
  · by_cases htoken : t = r.token
    · subst htoken
      obtain rfl := Option.some.inj (hself.symm.trans ht)
      exact ⟨hbonded, _, hbatch, (Held.fresh hb hfee hzero (htotal hbonded) blocks).congr
        (fun _ => rfl) rfl⟩
    · rw [(hother t htoken).1] at ht
      obtain ⟨hbonded', β, hβ, hheld⟩ := h.kept.held t b' ht
      exact ⟨hbonded', β, (hother t htoken).2.trans hβ, hheld.congr (fun _ => rfl) rfl⟩
  · have htoken : t ≠ r.token := by
      rintro rfl
      cases hself.symm.trans ht
    exact h.kept.vacant t ((hother t htoken).1 ▸ ht)
  · exact (h.kept.escrow d).trans (pledged_insert hnone b blocks d).symm
  · by_cases htoken : t = r.token
    · subst htoken
      obtain rfl := Option.some.inj (hbatch.symm.trans hβ)
      exact fun hpos => absurd hpos (lt_irrefl 0)
    · exact h.current t b' β ((hother t htoken).1 ▸ ht) ((hother t htoken).2 ▸ hβ)
  · by_cases htoken : t = r.token
    · subst htoken
      obtain rfl := Option.some.inj (hbatch.symm.trans hβ)
      exact fun hne => absurd rfl hne
    · exact h.trades t b' β ((hother t htoken).1 ▸ ht) ((hother t htoken).2 ▸ hβ)
  · by_cases htoken : t = r.token
    · subst htoken
      obtain rfl := Option.some.inj (hself.symm.trans ht)
      obtain rfl := Option.some.inj (hbatch.symm.trans hβ)
      exact (Hatching.fresh hb hzero hlast hhatch blocks).congr (fun _ => rfl) rfl
    · exact (h.hatching t b' β ((hother t htoken).1 ▸ ht) ((hother t htoken).2 ▸ hβ) hhatch).congr
        (fun _ => rfl) rfl
  · by_cases htoken : t = r.token
    · subst htoken
      obtain rfl := Option.some.inj (hself.symm.trans ht)
      exact Backed.fresh hb hzero _
    · exact h.backed t b' ((hother t htoken).1 ▸ ht)
  · by_cases htoken : t = r.token
    · subst htoken
      obtain rfl := Option.some.inj (hself.symm.trans ht)
      exact (Stocked.fresh hb hzero).congr fun _ => rfl
    · exact (h.stocked t b' ((hother t htoken).1 ▸ ht)).congr fun _ => rfl

structure Created (r : CreateBond) (m m' : Market) : Prop where
  new : Table.get? m.store.bonds r.token = none
  market : ∃ b blocks, b.Fresh r ∧
    m' = (m.withBond r.token b).withBatch r.token (Batch.blank r.token blocks)

theorem Created.spared {r : CreateBond} {m' : Market} (h : Created r m m') : Spared m m' := by
  obtain ⟨_, _, -, rfl⟩ := h.market
  exact fun _ _ => rfl

theorem Created.lasting {r : CreateBond} {m' : Market} (h : Created r m m') : Lasting m m' := by
  intro t b hb
  have hne : r.token ≠ t := by
    rintro rfl
    cases h.new.symm.trans hb
  obtain ⟨_, _, -, rfl⟩ := h.market
  exact ⟨b, (Table.get?_set_of_ne _ hne _).trans hb, rfl⟩

/-- A bond that is created leaves a sound market if its token is one that is made by the market
alone. -/
theorem createBond_sat (hsep : cfg.Separate) (h : Sound cfg bonded fills m) (r : CreateBond)
    (hr : cfg.IsUser r.feeAddress) (hpayment : (Table.keys r.outcomePayment).Nodup) :
    (createBond cfg r).Sat m
      (fun _ m' => ((∀ t ∈ Table.keys m'.store.bonds, bonded t) → Sound cfg bonded fills m') ∧
        Created r m m')
      (Refused m) := by
  unfold createBond
  refine decide_sat fun t ht => ?_
  rw [Action.sat_bind, Action.sat_get]
  refine decide_sat fun _ hnew => decide_sat fun b hb => ?_
  have hfresh := CreateBond.build_fresh (CreateBond.checked_of_check ht) hsep.blocks hpayment hb
  have hnone : Table.get? m.store.bonds r.token = none := by
    simpa [Table.contains] using rejectIf_eq_ok_iff.1 hnew
  refine decide_sat fun batch hbatch => ?_
  rw [Batch.new_eq_ok hfresh.formed.blocks] at hbatch
  cases hbatch
  simp only [setBond, setBatch, Action.sat_bind, Action.sat_modify, Action.sat_pure,
    hfresh.formed.token_eq]
  refine ⟨fun hbonded => h.create hfresh hnone ?_ hr _, hnone, b, _, hfresh, rfl⟩
  exact hbonded _ (Table.mem_keys_of_get? (get?_withBond m r.token b))

/-! ### Edits -/

theorem editBond_sat (h : Sound cfg bonded fills m) (r : EditBond) :
    (editBond cfg r).Sat m
      (fun _ m' => Sound cfg bonded fills m' ∧ Worked r.token Bond.Edited m m' ∧
        m'.store.batches = m.store.batches ∧ m'.ledger = m.ledger)
      (Refused m) := by
  rw [editBond, Action.sat_bind, Action.sat_get]
  refine decide_sat fun b' hb' => ?_
  obtain ⟨b, hb, hrenews, -⟩ := edited_eq_ok hb'
  obtain ⟨name, description, limits, rate, margin, rfl⟩ : ∃ name description limits rate margin,
      b' = { b with
        name, description, orderLimits := limits, sanityRate := rate, sanityMargin := margin } :=
    ⟨_, _, _, _, _, hrenews.others⟩
  obtain ⟨-, β, hβ, hheld⟩ := h.kept.held _ b hb
  simp only [setBond, Action.sat_bind, Action.sat_modify, Action.sat_pure]
  have hapart : Apart r.token m (m.withBond r.token { b with
      name, description, orderLimits := limits, sanityRate := rate, sanityMargin := margin }) :=
    apart_withBond hb rfl
  refine ⟨h.replace hapart ?_ (fun _ _ => rfl) (get?_withBond ..) hβ (h.current _ b β hb hβ)
    (h.trades _ b β hb hβ) (fun hhatch => { h.hatching _ b β hb hβ hhatch with })
    (h.backed _ b hb) { h.stocked _ b hb with }, ⟨hapart, b, _, hb, get?_withBond .., rfl, rfl⟩,
    trivial, trivial⟩
  refine h.kept.replace hapart hβ (get?_withBond ..) hβ ?_ h.kept.solvent fun _ => rfl
  exact Held.congr (m := m) { hheld with formed := hheld.formed.update .. } (fun _ => rfl) rfl

/-! ### Outcome payments -/

theorem decidePayment_eq_ok {r : PayOutcome} {b : Bond} {payment : Coins}
    (h : m.decidePayment r = .ok (b, payment)) :
    Table.get? m.store.bonds r.bondToken = some b ∧ b.phase = .opened ∧
      b.outcomePayment.normalize = .ok payment ∧ payment ≠ [] ∧
      ∃ β, m.store.batch r.bondToken = .ok β ∧ β.hasOpenOrders = false := by
  simp only [decidePayment, Result.bind_eq_ok] at h
  obtain ⟨_, -, b', hb, _, hphase, payment', hpayment, _, hsomething, β, hβ, _, hnone, he⟩ := h
  cases he
  exact ⟨bondFor_eq_ok hb, not_not.1 (rejectIf_eq_ok_iff.1 hphase), hpayment,
    rejectIf_eq_ok_iff.1 hsomething, β, hβ, by simpa using rejectIf_eq_ok_iff.1 hnone⟩

theorem totals_eq_zero (h : β.Formed cfg token) (hnone : β.hasOpenOrders = false) :
    (β.totalBuy = 0 ∧ β.totalSell = 0) ∧ β.swaps = [] := by
  simp only [Batch.hasOpenOrders, Bool.or_eq_false_iff, Bool.not_eq_false',
    List.isEmpty_iff] at hnone
  obtain ⟨⟨hbuys, hsells⟩, hswaps⟩ := hnone
  refine ⟨⟨h.totalBuy.trans ?_, h.totalSell.trans ?_⟩, h.openSwaps_eq.symm.trans hswaps⟩
  · exact congrArg (fun l => (l.map fun o : BuyOrder => o.size).sum) hbuys
  · exact congrArg (fun l => (l.map fun o : SellOrder => o.size).sum) hsells

theorem Held.settle (h : Held cfg m token b β) (hnone : β.totalBuy = 0 ∧ β.totalSell = 0)
    (htotal : m₁.ledger.totalSupply token = m.ledger.totalSupply token) :
    Held cfg m₁ token { b with phase := .settled, reserve := (m₁.reserveOf b).dropZeros } β where
  formed := h.formed.update ..
  feeUser := h.feeUser
  orders := h.orders
  supply_nonneg := h.supply_nonneg
  sells_le := h.sells_le
  buys_le := h.buys_le
  family hh := by cases hh
  hatch hh := by simp [Bond.inHatch] at hh
  room hh := by simp [Bond.inHatch] at hh
  settled _ := hnone
  minted := htotal.trans h.minted
  synced := rfl

/-- A payment takes nothing out of the reserve account. -/
theorem Stocked.settle (h : m.Stocked b) {reserve : Coins}
    (hle : ∀ d, m.balance b.reserveAddress d ≤ m₁.balance b.reserveAddress d) :
    m₁.Stocked { b with phase := .settled, reserve := reserve } where
  confined hphase := absurd rfl hphase
  positive hswap hmax hsupply d hd := (h.positive hswap hmax hsupply d hd).trans_le (hle d)

/-- The outcome payment of a bond has been made: it is in the reserve account, and the bond has been
settled. Something has been paid. -/
structure Paid (token : Denom) (b : Bond) (m m' : Market) : Prop where
  apart : Apart token m m'
  before : Table.get? m.store.bonds token = some b
  opened : b.phase = .opened
  after : ∃ reserve, Table.get? m'.store.bonds token =
    some { b with phase := .settled, reserve := reserve }
  something : ∃ d, 0 < b.outcomePayment.amountOf d
  reserve : ∀ d, m'.balance (reserveAccountFor token) d =
    m.balance (reserveAccountFor token) d + b.outcomePayment.amountOf d

theorem Paid.worked {m' : Market} (h : Paid token b m m') : Worked token Bond.PaidOut m m' := by
  obtain ⟨reserve, hafter⟩ := h.after
  exact ⟨h.apart, b, _, h.before, hafter, h.opened, rfl⟩

theorem payOutcome_sat (hsep : cfg.Separate) (h : Sound cfg bonded fills m) (r : PayOutcome)
    (hr : cfg.IsUser r.sender) :
    (payOutcome r).Sat m
      (fun _ m' => Sound cfg bonded fills m' ∧ ∃ b, Paid r.bondToken b m m')
      (Refused m) := by
  rw [payOutcome, Action.sat_bind, Action.sat_get]
  refine decide_sat fun bp hbp => ?_
  obtain ⟨hb, hphase, hpayment, hsomething, β, hβ, hnone⟩ := decidePayment_eq_ok (b := bp.1) hbp
  obtain ⟨-, β', hβ', hheld⟩ := h.kept.held _ bp.1 hb
  cases hβ.symm.trans (batch_eq_ok hβ')
  obtain ⟨hnone, hswaps⟩ := totals_eq_zero hheld.orders hnone
  obtain ⟨payment, hok, hproper, hamount⟩ := Coins.normalize_spec hheld.formed.payment
  cases hpayment.symm.trans hok
  have haddress := hheld.formed.address
  refine first_sat h (c := .transfer r.sender bp.1.reserveAddress bp.2.entries)
    hproper.ofEntries_entries fun m₁ hpost => ?_
  simp only [setBond, Action.sat_bind, Action.sat_modify, Action.sat_pure]
  show (syncReserve r.bondToken).Sat (m₁.withBond r.bondToken _) _ _
  rw [syncReserve_sat (get?_withBond ..), withBond_withBond]
  have hreserve (d : Denom) : m₁.balance (reserveAccountFor r.bondToken) d =
      m.balance (reserveAccountFor r.bondToken) d + bp.1.outcomePayment.amountOf d := by
    rw [balance, hpost.balance, ← hamount]
    simp [LedgerCall.flow, haddress, hr.ne_reserve, CoinEntries.amountOf_entries hproper]
  have hheld₁ := hheld.settle hnone ((hpost.total r.bondToken).trans (add_zero _))
  refine (h.revalue hb hβ' hpost (fun u hu d => ?_) (fun d => ?_) (fun _ _ => rfl) hheld₁ rfl
    (by omega) (fun hne => absurd hswaps hne) (by simp [Bond.inHatch])
    (fun _ _ hopen => by cases hopen) ((h.stocked _ _ hb).settle fun d => ?_)).imp_right
    fun hapart => ⟨bp.1, hapart, hb, hphase, ⟨_, get?_withBond ..⟩, ?_, hreserve⟩
  · simp [LedgerCall.flow, haddress, reserveAccountFor_inj, hu.symm, hr.ne_reserve]
  · simp [LedgerCall.flow, haddress, (hsep.escrow_ne_reserve _).symm, hr.ne_escrow]
  · -- The payment is only added to the reserve account.
    rw [haddress, hreserve]
    exact le_add_of_nonneg_right (hheld.formed.payment.amountOf_nonneg d)
  · obtain ⟨p, hp⟩ := List.exists_mem_of_ne_nil _ hsomething
    refine ⟨p.1, ?_⟩
    rw [← hamount]
    exact Coins.amountOf_pos_of_ofEntries hok hproper (List.mem_map_of_mem hp)

end Market
end BondMarket
