import BondMarket.Proofs.Phases
import Mathlib.Algebra.Order.BigOperators.Group.Finset

/-!
The shares of a settled bond, when its holders withdraw one after another. Each share is rounded
down out of what the withdrawals before have left, of the reserve and of the supply. What rounding
leaves raises what there is for each token, by less than a unit each time, so that nobody who waits
gets less for it; and the last holder gets all that is left.
-/

namespace BondMarket

/-! ### Rounding down out of what is left -/

/-- Of `r₀` units for `s₀` tokens, `r` units are left for `s` tokens after `k` withdrawals: there is
as much for each token as before, and at most `k` units more than that in all. -/
structure LeftOver (r₀ s₀ r s k : Int) : Prop where
  low : r₀ * s ≤ r * s₀
  high : r * s₀ ≤ r₀ * s + k * s₀
  last : s = 0 → r = 0

namespace LeftOver

variable {r₀ s₀ r s k held : Int}

theorem start (hs₀ : 0 < s₀) : LeftOver r₀ s₀ r₀ s₀ 0 :=
  ⟨le_rfl, by omega, fun hzero => absurd hzero hs₀.ne'⟩

theorem share_bounds (r held : Int) (hs : 0 < s) :
    (r * held).fdiv s * s ≤ r * held ∧ r * held < ((r * held).fdiv s + 1) * s := by
  rw [Int.fdiv_eq_ediv_of_nonneg _ hs.le]
  exact ⟨Int.ediv_mul_le _ hs.ne', Int.lt_ediv_add_one_mul_self _ hs⟩

/-- A withdrawal leaves as much for each token, up to one unit more in all. -/
theorem withdraw (h : LeftOver r₀ s₀ r s k) (hs₀ : 0 < s₀) (hk : 0 ≤ k) (hheld : 0 < held)
    (hle : held ≤ s) : LeftOver r₀ s₀ (r - (r * held).fdiv s) (s - held) (k + 1) := by
  have hs : 0 < s := hheld.trans_le hle
  obtain ⟨hfloor, hnext⟩ := share_bounds r held hs
  set paid := (r * held).fdiv s
  have hleft : 0 ≤ s - held := sub_nonneg.2 hle
  refine ⟨le_of_mul_le_mul_right ?_ hs, le_of_mul_le_mul_right ?_ hs, fun hzero => ?_⟩
  · calc r₀ * (s - held) * s = r₀ * s * (s - held) := by ring
      _ ≤ r * s₀ * (s - held) := mul_le_mul_of_nonneg_right h.low hleft
      _ = (r * s - r * held) * s₀ := by ring
      _ ≤ (r * s - paid * s) * s₀ := mul_le_mul_of_nonneg_right (by omega) hs₀.le
      _ = (r - paid) * s₀ * s := by ring
  · calc (r - paid) * s₀ * s = (r * s - paid * s) * s₀ := by ring
      _ ≤ (r * s - r * held + s) * s₀ := mul_le_mul_of_nonneg_right (by linarith) hs₀.le
      _ = r * s₀ * (s - held) + s₀ * s := by ring
      _ ≤ (r₀ * s + k * s₀) * (s - held) + s₀ * s := by
        have := mul_le_mul_of_nonneg_right h.high hleft
        linarith
      _ = (r₀ * (s - held) + (k + 1) * s₀) * s - k * s₀ * held := by ring
      _ ≤ (r₀ * (s - held) + (k + 1) * s₀) * s :=
        sub_le_self _ (mul_nonneg (mul_nonneg hk hs₀.le) hheld.le)
  · -- The last holder has all tokens, and the share is not rounded.
    obtain rfl : held = s := by omega
    have hall : paid = r := Int.mul_fdiv_cancel r hs.ne'
    rw [hall, sub_self]

/-- A share is at least what it would have been at the start, and more by at most a unit for every
withdrawal that came before. -/
theorem share (h : LeftOver r₀ s₀ r s k) (hs₀ : 0 < s₀) (hk : 0 ≤ k) (hheld : 0 < held)
    (hle : held ≤ s) :
    r₀ * held / s₀ ≤ (r * held).fdiv s ∧ (r * held).fdiv s * s₀ ≤ r₀ * held + k * s₀ := by
  have hs : 0 < s := hheld.trans_le hle
  obtain ⟨hfloor, hnext⟩ := share_bounds r held hs
  set paid := (r * held).fdiv s
  constructor
  · rw [← Int.lt_add_one_iff]
    refine Int.ediv_lt_of_lt_mul hs₀ (lt_of_mul_lt_mul_right ?_ hs.le)
    calc r₀ * held * s = r₀ * s * held := by ring
      _ ≤ r * s₀ * held := mul_le_mul_of_nonneg_right h.low hheld.le
      _ = r * held * s₀ := by ring
      _ < (paid + 1) * s * s₀ := mul_lt_mul_of_pos_right hnext hs₀
      _ = (paid + 1) * s₀ * s := by ring
  · refine le_of_mul_le_mul_right ?_ hs
    calc paid * s₀ * s = paid * s * s₀ := by ring
      _ ≤ r * held * s₀ := mul_le_mul_of_nonneg_right hfloor hs₀.le
      _ = r * s₀ * held := by ring
      _ ≤ (r₀ * s + k * s₀) * held := mul_le_mul_of_nonneg_right h.high hheld.le
      _ = r₀ * held * s + k * s₀ * held := by ring
      _ ≤ r₀ * held * s + k * s₀ * s := by
        have := mul_le_mul_of_nonneg_left hle (mul_nonneg hk hs₀.le)
        linarith
      _ = (r₀ * held + k * s₀) * s := by ring

end LeftOver

/-! ### What happens to a settled bond -/

namespace Event

open Market

variable {cfg : Config} {bonded : Denom → Prop} {fills : Denom → Nat} {m m' : Market} {t : Denom}
  {b : Bond}

theorem apply_lasting (hsep : cfg.Separate) (h : Sound cfg bonded fills m)
    {log log' : List Response} {e : Event} (he : e.Clean cfg bonded)
    (hm : e.apply cfg log m = some (log', m')) : Lasting m m' := by
  rcases h.apply_cases hsep he hm with ⟨r, answer, -, hr, hrun, -⟩ | ⟨rfl, -⟩ |
    ⟨c, ledger, -, -, -, rfl, -⟩
  · exact ((handle_sat hsep h hr).of_ok hrun).2.2
  · exact .refl _
  · exact fun _ b hb => ⟨b, hb, rfl⟩

theorem apply_settled (hsep : cfg.Separate) (h : Sound cfg bonded fills m)
    {log log' : List Response} {e : Event} (he : e.Clean cfg bonded)
    (hm : e.apply cfg log m = some (log', m')) (hb : Table.get? m.store.bonds t = some b)
    (hsettled : b.phase = .settled) :
    ∃ b', Table.get? m'.store.bonds t = some b' ∧ b'.phase = .settled ∧ b'.terms = b.terms ∧
      ((b'.supply = b.supply ∧
          ∀ d, m'.balance (reserveAccountFor t) d = m.balance (reserveAccountFor t) d) ∨
        ∃ a owed, cfg.IsUser a ∧ Withdrew t b a owed m m') := by
  obtain ⟨-, β, hβ, -⟩ := h.kept.held t b hb
  obtain ⟨b', hb', hterms⟩ := apply_lasting hsep h he hm t b hb
  obtain ⟨_, -, hturned⟩ := apply_turned hsep h he hm
  obtain ⟨b₁, hb₁, hturn⟩ := hturned.turn t b β hb hβ
  obtain rfl : b₁ = b' := Option.some.inj (hb₁.symm.trans hb')
  have hrested := hturn.rested hsettled
  refine ⟨b₁, hb₁, hrested.phase, hterms, ?_⟩
  by_cases hwithdraws : e.Withdraws t
  · rcases h.apply_cases hsep he hm with ⟨r, answer, rfl, hr, hrun, -⟩ | ⟨rfl, -⟩ |
      ⟨c, ledger, rfl, -⟩
    · cases r with
      | withdraw r =>
          obtain rfl : r.bondToken = t := hwithdraws
          obtain ⟨owed, hrun, -⟩ := Action.map_eq_ok.1 hrun
          obtain ⟨-, b₀, hwithdrew⟩ := (withdrawShare_sat hsep h r hr).of_ok hrun
          obtain rfl : b₀ = b := Option.some.inj (hwithdrew.before.symm.trans hb)
          exact .inr ⟨_, owed, hr, hwithdrew⟩
      | _ => exact hwithdraws.elim
    · obtain rfl : b = b₁ := Option.some.inj (hb.symm.trans hb₁)
      exact .inl ⟨rfl, fun _ => rfl⟩
    · exact hwithdraws.elim
  · exact .inl (hrested.unchanged (by simpa using hwithdraws))

end Event

theorem Leads.lasting {cfg : Config} {bonded : Denom → Prop} {log log' : List Response}
    {m m' : Market} {es : List Event} (h : Leads cfg bonded log m es log' m')
    (hrun : CleanRun cfg bonded log m) : Market.Lasting m m' := by
  induction h with
  | nil => exact .refl m
  | snoc hleads he hm _ ih =>
      obtain ⟨hsep, hsound⟩ := (hleads.cleanRun hrun).sound
      exact ih.trans (Event.apply_lasting hsep hsound he hm)

/-! ### Withdrawals one after another -/

/-- Holders of the tokens of a bond withdraw, in any order. What else happens in between moves no
tokens of the bond. The holders that are `left` have not withdrawn yet, and `paid` is what the
others have got. -/
inductive Withdrawals (cfg : Config) (bonded : Denom → Prop) (t : Denom)
    (holders : Finset Account) (log : List Response) (m : Market) :
    Finset Account → List Coins → List Response → Market → Prop
  | start : Withdrawals cfg bonded t holders log m holders [] log m
  | withdraw {left : Finset Account} {paid : List Coins} {log₁ : List Response} {m₁ m' : Market}
      {a : Account} {owed : Coins} (h : Withdrawals cfg bonded t holders log m left paid log₁ m₁)
      (ha : a ∈ left)
      (hm : Market.handle cfg (.withdraw { recipient := a, bondToken := t }) m₁ =
        .ok (.coins owed) m') :
      Withdrawals cfg bonded t holders log m (left.erase a) (paid ++ [owed])
        (log₁ ++ [.coins owed]) m'
  | other {left : Finset Account} {paid : List Coins} {log₁ log' : List Response}
      {m₁ m' : Market} {e : Event} (h : Withdrawals cfg bonded t holders log m left paid log₁ m₁)
      (he : e.Clean cfg bonded) (hm : e.apply cfg log₁ m₁ = some (log', m'))
      (hbonded : ∀ t ∈ Table.keys m'.store.bonds, bonded t)
      (hstill : ∀ a, m'.balance a t = m₁.balance a t) :
      Withdrawals cfg bonded t holders log m left paid log' m'

namespace Market

variable {cfg : Config} {bonded : Denom → Prop} {fills : Denom → Nat} {m m₁ m' : Market}
  {t : Denom} {b b₁ : Bond} {a : Account} {left : Finset Account} {paid : List Coins}
  {owed : Coins}

structure Holder (cfg : Config) (m : Market) (t : Denom) (a : Account) : Prop where
  user : cfg.IsUser a
  written : Text.allBlank a = false
  held_pos : 0 < m.balance a t

/-- How far withdrawals from a bond `b` have come: the holders that are left have all of the supply,
and of every reserve token there is left over what they can share in. -/
structure Sharing (m : Market) (t : Denom) (b : Bond) (left : Finset Account) (paid : List Coins)
    (b' : Bond) (m' : Market) : Prop where
  bond : Table.get? m'.store.bonds t = some b'
  settled : b'.phase = .settled
  terms : b'.terms = b.terms
  held : ∀ a ∈ left, m'.balance a t = m.balance a t
  supply : b'.supply = ∑ a ∈ left, m.balance a t
  reserve : ∀ d ∈ b.reserveTokens,
    LeftOver (m.balance (reserveAccountFor t) d) b.supply (m'.balance (reserveAccountFor t) d)
        b'.supply paid.length ∧
      (paid.map fun owed => owed.amountOf d).sum + m'.balance (reserveAccountFor t) d =
        m.balance (reserveAccountFor t) d

theorem Sharing.start {holders : Finset Account} (hb : Table.get? m.store.bonds t = some b)
    (hsettled : b.phase = .settled) (hsupply : 0 < b.supply)
    (hsum : ∑ a ∈ holders, m.balance a t = b.supply) : Sharing m t b holders [] b m where
  bond := hb
  settled := hsettled
  terms := rfl
  held _ _ := rfl
  supply := hsum.symm
  reserve d _ := ⟨.start hsupply, by simp⟩

theorem Sharing.le_supply (h : Sharing m t b left paid b₁ m₁) (hleft : ∀ a ∈ left, Holder cfg m t a)
    (ha : a ∈ left) : m₁.balance a t ≤ b₁.supply := by
  rw [h.held a ha, h.supply]
  exact Finset.single_le_sum (fun a ha => (hleft a ha).held_pos.le) ha

theorem due_of_mem {d : Denom} (hf : b.Formed t) (hd : d ∈ b.reserveTokens) :
    m.due t b a d =
      (m.balance (reserveAccountFor t) d * m.balance a t).fdiv b.supply := by
  rw [due, amountOf_reserveOf, if_pos hd, hf.address]

theorem due_of_not_mem {d : Denom} (hd : d ∉ b.reserveTokens) : m.due t b a d = 0 := by
  rw [due, amountOf_reserveOf, if_neg hd, zero_mul, Int.zero_fdiv]

theorem Sharing.withdraw (h : Sharing m t b left paid b₁ m₁) (hf : b₁.Formed t)
    (hsupply : 0 < b.supply) (hleft : ∀ a ∈ left, Holder cfg m t a) (ha : a ∈ left)
    (hwithdrew : Withdrew t b₁ a owed m₁ m') :
    ∃ b', Sharing m t b (left.erase a) (paid ++ [owed]) b' m' := by
  obtain ⟨reserve, hafter⟩ := hwithdrew.after
  have hle := h.le_supply hleft ha
  refine ⟨_, hafter, h.settled, h.terms, fun u hu => ?_, ?_, fun d hd => ?_⟩
  · obtain ⟨hne, hu⟩ := Finset.mem_erase.1 hu
    rw [hwithdrew.others u hne ((hleft u hu).user.ne_reserve t), h.held u hu]
  · rw [Finset.sum_erase_eq_sub ha, ← h.supply, ← h.held a ha]
    rfl
  · obtain ⟨hleftOver, hsum⟩ := h.reserve d hd
    have hdue : m₁.due t b₁ a d =
        (m₁.balance (reserveAccountFor t) d * m₁.balance a t).fdiv b₁.supply :=
      due_of_mem hf (Bond.reserveTokens_congr h.terms ▸ hd)
    rw [hwithdrew.reserve]
    constructor
    · rw [hdue, List.length_append, List.length_singleton, Nat.cast_add, Nat.cast_one]
      exact hleftOver.withdraw hsupply (Int.natCast_nonneg _) hwithdrew.held_pos hle
    · rw [List.map_append, List.sum_append, List.map_singleton, List.sum_singleton, hwithdrew.owed]
      omega

theorem Sharing.other (h : Sharing m t b left paid b₁ m₁) (hsep : cfg.Separate)
    (hsound : Sound cfg bonded fills m₁) {log log' : List Response} {e : Event}
    (he : e.Clean cfg bonded) (hm : e.apply cfg log m₁ = some (log', m'))
    (hstill : ∀ a, m'.balance a t = m₁.balance a t) :
    ∃ b', Sharing m t b left paid b' m' := by
  obtain ⟨b', hb', hsettled, hterms, hcases⟩ :=
    Event.apply_settled hsep hsound he hm h.bond h.settled
  obtain ⟨hsupply, hreserve⟩ : b'.supply = b₁.supply ∧
      ∀ d, m'.balance (reserveAccountFor t) d = m₁.balance (reserveAccountFor t) d := by
    refine hcases.resolve_right fun ⟨a, owed, _, hwithdrew⟩ => ?_
    -- Who withdraws has tokens before, and none afterwards.
    have hholder := hwithdrew.holder t
    rw [if_pos rfl, due_of_not_mem (hsound.kept.formed h.bond).apart, hstill a] at hholder
    have hpos := hwithdrew.held_pos
    omega
  exact ⟨b', hb', hsettled, hterms.trans h.terms, fun a ha => (hstill a).trans (h.held a ha),
    hsupply.trans h.supply, fun d hd => by
      rw [hsupply, hreserve]
      exact h.reserve d hd⟩

/-- A holder who has not withdrawn yet can, and gets at least the share there was at the start. -/
theorem Sharing.next (h : Sharing m t b left paid b₁ m₁) (hsep : cfg.Separate)
    (hsound : Sound cfg bonded fills m₁) (hapart : t ∉ b.reserveTokens) (hsupply : 0 < b.supply)
    (hleft : ∀ a ∈ left, Holder cfg m t a) (ha : a ∈ left) :
    ∃ owed m', handle cfg (.withdraw { recipient := a, bondToken := t }) m₁ =
        .ok (.coins owed) m' ∧
      ∀ d ∈ b.reserveTokens, m'.balance a d = m₁.balance a d + owed.amountOf d ∧
        m.balance (reserveAccountFor t) d * m.balance a t / b.supply ≤ owed.amountOf d ∧
        owed.amountOf d * b.supply ≤
          m.balance (reserveAccountFor t) d * m.balance a t + paid.length * b.supply := by
  have hholder := hleft a ha
  have hle := h.le_supply hleft ha
  have hpos : 0 < m₁.balance a t := by
    rw [h.held a ha]
    exact hholder.held_pos
  obtain ⟨owed, m', hwithdrawn, -, hwithdrew⟩ := withdrawShare_eq_ok hsep hsound
    hholder.user hholder.written h.bond h.settled hpos hle
  refine ⟨owed, m', Action.map_eq_ok.2 ⟨owed, hwithdrawn, rfl⟩, fun d hd => ⟨?_, ?_⟩⟩
  · have hne : t ≠ d := fun heq => hapart (heq ▸ hd)
    rw [hwithdrew.holder, if_neg hne, sub_zero, hwithdrew.owed]
  · have hdue : owed.amountOf d =
        (m₁.balance (reserveAccountFor t) d * m₁.balance a t).fdiv b₁.supply :=
      (hwithdrew.owed d).trans
        (due_of_mem (hsound.kept.formed h.bond) (Bond.reserveTokens_congr h.terms ▸ hd))
    rw [hdue, ← h.held a ha]
    exact (h.reserve d hd).1.share hsupply (Int.natCast_nonneg _) hpos hle

theorem Sharing.paid_le (h : Sharing m t b left paid b₁ m₁) (hs : m₁.ledger.Solvent) {d : Denom}
    (hd : d ∈ b.reserveTokens) :
    (paid.map fun owed => owed.amountOf d).sum ≤ m.balance (reserveAccountFor t) d := by
  rw [← (h.reserve d hd).2]
  exact le_add_of_nonneg_right (hs _ d)

theorem Sharing.emptied (h : Sharing m t b ∅ paid b₁ m₁) (hkept : Kept cfg bonded m₁) :
    b₁.supply = 0 ∧ b₁.reserve = [] ∧ m₁.ledger.totalSupply t = 0 ∧
      ∀ d ∈ b.reserveTokens,
        (paid.map fun owed => owed.amountOf d).sum = m.balance (reserveAccountFor t) d ∧
        m₁.balance (reserveAccountFor t) d = 0 := by
  obtain ⟨-, β, -, hheld⟩ := hkept.held t b₁ h.bond
  have hzero : b₁.supply = 0 := h.supply
  have hempty : ∀ d ∈ b.reserveTokens, m₁.balance (reserveAccountFor t) d = 0 :=
    fun d hd => (h.reserve d hd).1.last hzero
  refine ⟨hzero, ?_, ?_, fun d hd => ⟨?_, hempty d hd⟩⟩
  · rw [hheld.synced]
    refine dropZeros_reserveOf fun d hd => ?_
    rw [hheld.formed.address]
    exact hempty d (Bond.reserveTokens_congr h.terms ▸ hd)
  · rw [hheld.minted, hzero, (hheld.settled h.settled).2, sub_zero]
  · have hsum := (h.reserve d hd).2
    rwa [hempty d hd, add_zero] at hsum

end Market

open Market in
theorem Withdrawals.sharing {cfg : Config} {bonded : Denom → Prop} {log log' : List Response}
    {m m' : Market} {t : Denom} {b : Bond} {holders left : Finset Account} {paid : List Coins}
    (h : Withdrawals cfg bonded t holders log m left paid log' m')
    (hrun : CleanRun cfg bonded log m) (hb : Table.get? m.store.bonds t = some b)
    (hsettled : b.phase = .settled) (hsupply : 0 < b.supply)
    (hholders : ∀ a ∈ holders, Holder cfg m t a)
    (hsum : ∑ a ∈ holders, m.balance a t = b.supply) :
    CleanRun cfg bonded log' m' ∧ left ⊆ holders ∧ ∃ b', Sharing m t b left paid b' m' := by
  induction h with
  | start => exact ⟨hrun, Finset.Subset.refl _, b, .start hb hsettled hsupply hsum⟩
  | @withdraw _ _ _ _ _ a _ _ ha hm ih =>
      obtain ⟨hrun₁, hsubset, b₁, hsharing⟩ := ih
      obtain ⟨hsep, hsound⟩ := hrun₁.sound
      have hleft := fun u hu => hholders u (hsubset hu)
      obtain ⟨owed, hwithdrawn, howed⟩ := Action.map_eq_ok.1 hm
      cases howed
      obtain ⟨hsound', b₀, hwithdrew⟩ :=
        (withdrawShare_sat hsep hsound _ (hleft a ha).user).of_ok hwithdrawn
      obtain rfl : b₀ = b₁ := Option.some.inj (hwithdrew.before.symm.trans hsharing.bond)
      exact ⟨hrun₁.answered hm (hleft a ha).user hsound'.kept,
        (Finset.erase_subset _ _).trans hsubset,
        hsharing.withdraw (hsound.kept.formed hsharing.bond) hsupply hleft ha hwithdrew⟩
  | other _ he hm hbonded hstill ih =>
      obtain ⟨hrun₁, hsubset, b₁, hsharing⟩ := ih
      obtain ⟨hsep, hsound⟩ := hrun₁.sound
      exact ⟨hrun₁.step he hm hbonded, hsubset, hsharing.other hsep hsound he hm hstill⟩

/-- Withdrawals are fair in every order. In every run that has come to a settled bond with a supply,
of which holders have all tokens, whatever withdrawals have been made by some of them: a holder who
has not withdrawn yet can, and gets of every reserve token at least what falls to the tokens held
out of the reserve and the supply at the start, rounded down, and at most that share and one unit
for every withdrawal before. What has been paid out never exceeds the reserve, and it is all of the
reserve when nobody is left; then nothing remains of the reserve and of the supply. -/
theorem CleanRun.withdrawals_fair {cfg : Config} {bonded : Denom → Prop} {log : List Response}
    {m : Market} (h : CleanRun cfg bonded log m) {t : Denom} {b : Bond}
    (hb : m.store.bond? t = some b) (hsettled : b.phase = .settled) (hsupply : 0 < b.supply)
    {holders : Finset Account} (hholders : ∀ a ∈ holders, Market.Holder cfg m t a)
    (hsum : ∑ a ∈ holders, m.balance a t = b.supply) {left : Finset Account} {paid : List Coins}
    {log' : List Response} {m' : Market}
    (hw : Withdrawals cfg bonded t holders log m left paid log' m') :
    (∀ a ∈ left, ∃ owed m'',
      Market.handle cfg (.withdraw { recipient := a, bondToken := t }) m' =
        .ok (.coins owed) m'' ∧
      ∀ d ∈ b.reserveTokens, m''.balance a d = m'.balance a d + owed.amountOf d ∧
        m.balance b.reserveAddress d * m.balance a t / b.supply ≤ owed.amountOf d ∧
        owed.amountOf d * b.supply ≤
          m.balance b.reserveAddress d * m.balance a t + paid.length * b.supply) ∧
    (∀ d ∈ b.reserveTokens,
      (paid.map fun owed => owed.amountOf d).sum ≤ m.balance b.reserveAddress d) ∧
    (left = ∅ → (∃ b', m'.store.bond? t = some b' ∧ b'.supply = 0 ∧ b'.reserve = []) ∧
      m'.ledger.totalSupply t = 0 ∧ ∀ d ∈ b.reserveTokens,
        (paid.map fun owed => owed.amountOf d).sum = m.balance b.reserveAddress d ∧
        m'.balance b.reserveAddress d = 0) := by
  obtain ⟨hrun', hsubset, b', hsharing⟩ := hw.sharing h hb hsettled hsupply hholders hsum
  obtain ⟨-, hsound⟩ := h.sound
  obtain ⟨hsep, hsound'⟩ := hrun'.sound
  have hformed := hsound.kept.formed hb
  have hleft : ∀ a ∈ left, Market.Holder cfg m t a := fun a ha => hholders a (hsubset ha)
  rw [hformed.address]
  refine ⟨fun a ha => hsharing.next hsep hsound' hformed.apart hsupply hleft ha,
    fun d hd => hsharing.paid_le hsound'.kept.solvent hd, fun hnobody => ?_⟩
  subst hnobody
  obtain ⟨hzero, hreserve, htotal, hall⟩ := hsharing.emptied hsound'.kept
  exact ⟨⟨b', hsharing.bond, hzero, hreserve⟩, htotal, hall⟩

/-- A bond with a price of one unit and an outcome payment, of which a holder has seven tokens. -/
def heldEvents (outcomePayment : CoinEntries) : List Event :=
  [.post (.mint "alice" [("res", some 7)]),
    .post (.mint "carol" outcomePayment),
    .request (.create {
      token := "abc"
      name := "n"
      description := "d"
      creator := "z"
      functionType := "power_function"
      parameters := [("m", Dec.zero), ("n", Dec.zero), ("c", Dec.one)]
      reserveTokens := ["res"]
      txFee := Dec.zero
      exitFee := Dec.zero
      feeAddress := "fees"
      maxSupply := ⟨"abc", 1000⟩
      signers := ["z"]
      outcomePayment }),
    .request (.buy {
      buyer := "alice", amount := ⟨"abc", 7⟩, maxPrices := [("res", some 7)] }),
    .request (.cycle "abc")]

/-- A payment of three units makes it ten units for seven tokens. Who has kept three of them gets
four units, and who has been given the rest gets five or six. -/
theorem withdrawals_fair_seven :
    ∃ log m b paid log' m' owed m'', CleanRun {} (· ∈ ["abc"]) log m ∧
      m.store.bond? "abc" = some b ∧ b.phase = .settled ∧ b.supply = 7 ∧
      Withdrawals {} (· ∈ ["abc"]) "abc" {"alice", "bob"} log m {"bob"} [paid] log' m' ∧
      paid.amountOf "res" = 4 ∧
      Market.handle {} (.withdraw { recipient := "bob", bondToken := "abc" }) m' =
        .ok (.coins owed) m'' ∧
      m''.balance "bob" "res" = m'.balance "bob" "res" + owed.amountOf "res" ∧
      5 ≤ owed.amountOf "res" ∧ owed.amountOf "res" ≤ 6 := by
  have hplay : (playClean {} ["abc"] [] {} (heldEvents [("res", some 3)] ++
      [.post (.transfer "alice" "bob" [("abc", some 4)]),
        .request (.pay { sender := "carol", bondToken := "abc" })])).any (fun s =>
      (s.2.store.bond? "abc").any (fun b => b.phase = .settled ∧ b.supply = 7 ∧
        b.reserveTokens = ["res"] ∧ s.2.balance b.reserveAddress "res" = 10) ∧
      s.2.balance "alice" "abc" = 3 ∧ s.2.balance "bob" "abc" = 4 ∧
      (Market.withdrawShare {} { recipient := "alice", bondToken := "abc" }).Sat s.2
        (fun owed _ => owed.amountOf "res" = 4) fun _ _ => False) = true := by
    decide +kernel
  obtain ⟨⟨log, m⟩, hplay, hcheck⟩ := (Option.any_eq_true _ _).1 hplay
  have hrun := (CleanRun.start Config.separate_default).of_playClean hplay
  obtain ⟨hbond, halice, hbob, hfirst⟩ := of_decide_eq_true hcheck
  have halice : m.balance "alice" "abc" = 3 := halice
  have hbob : m.balance "bob" "abc" = 4 := hbob
  obtain ⟨b, hb, hbond⟩ := (Option.any_eq_true _ _).1 hbond
  obtain ⟨hsettled, hseven, htokens, hten⟩ := of_decide_eq_true hbond
  obtain ⟨paid, m', hpaid, hfour⟩ := hfirst.exists_ok
  have hholders : ∀ a ∈ ({"alice", "bob"} : Finset Account), Market.Holder {} m "abc" a := by
    intro a ha
    rcases Finset.mem_insert.1 ha with rfl | ha
    · exact ⟨by decide, by decide, by rw [halice]; decide⟩
    · obtain rfl := Finset.mem_singleton.1 ha
      exact ⟨by decide, by decide, by rw [hbob]; decide⟩
  have hsum : ∑ a ∈ ({"alice", "bob"} : Finset Account), m.balance a "abc" = b.supply := by
    rw [Finset.sum_pair (by decide), halice, hbob, hseven]
    rfl
  have hw : Withdrawals {} (· ∈ ["abc"]) "abc" {"alice", "bob"} log m {"bob"} [paid]
      (log ++ [.coins paid]) m' :=
    Withdrawals.start.withdraw (a := "alice") (by decide) (Action.map_eq_ok.2 ⟨paid, hpaid, rfl⟩)
  obtain ⟨hnext, -, -⟩ := hrun.withdrawals_fair hb hsettled (by omega) hholders hsum hw
  obtain ⟨owed, m'', hwithdrawn, hshare⟩ := hnext "bob" (by decide)
  obtain ⟨hgained, hlow, hhigh⟩ := hshare "res" (by simp [htokens])
  rw [hten, hbob, hseven] at hlow hhigh
  simp only [List.length_singleton, Nat.cast_one] at hhigh
  exact ⟨log, m, b, paid, _, m', owed, m'', hrun, hb, hsettled, hseven, hw, hfour, hwithdrawn,
    hgained, by omega, by omega⟩

end BondMarket
