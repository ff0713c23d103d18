import BondMarket.Proofs.Admission

/-!
Edits. An edit holds for each of five fields of a bond either a text to be read or the text that
leaves the field alone. Four of them decide for themselves, and nothing else of the bond or of the
market changes. The margin goes with the rate: its text is looked at exactly where a rate is read,
so that a margin alone is let in and does nothing, and one that is to be left alone beside a new
rate is read from the text that says so.
-/

namespace BondMarket

/-- What an edit makes of a field: the old value where it holds the text `keep`, and otherwise what
its text reads as. -/
def Renewed {α : Type} (keep text : String) (read : String → Result α) (old new : α) : Prop :=
  if text = keep then new = old else read text = .ok new

theorem Check.decimal_eq_ok {text name : String} {d : Dec} (h : decimal text name = .ok d) :
    Dec.parse text = .ok d := by
  unfold decimal at h
  split at h
  · cases h
    assumption
  · cases h

namespace EditBond

variable {r : EditBond} {keep : String} {b b' : Bond}

def readRate (text : String) : Result Dec := if text = "" then .ok Dec.zero else Dec.parse text

/-- The fields that decide for themselves are as the edit has them, and of the rest of the bond
nothing but the margin may have changed. -/
structure Renews (r : EditBond) (keep : String) (b b' : Bond) : Prop where
  name : Renewed keep r.name .ok b.name b'.name
  description : Renewed keep r.description .ok b.description b'.description
  orderLimits : Renewed keep r.orderLimits Coins.parse b.orderLimits b'.orderLimits
  sanityRate : Renewed keep r.sanityRate readRate b.sanityRate b'.sanityRate
  others : b' = { b with
    name := b'.name, description := b'.description, orderLimits := b'.orderLimits,
    sanityRate := b'.sanityRate, sanityMargin := b'.sanityMargin }

def MarginRenewed (r : EditBond) (keep : String) (b b' : Bond) : Prop :=
  if r.sanityRate ≠ keep ∧ r.sanityRate = "" then b'.sanityMargin = Dec.zero
  else Renewed keep r.sanityMargin Dec.parse b.sanityMargin b'.sanityMargin

/-- The margin goes with the rate: left alone, cleared or read where the rate is. -/
def MarginFollows (r : EditBond) (keep : String) (b b' : Bond) : Prop :=
  if r.sanityRate = keep then b'.sanityMargin = b.sanityMargin
  else if r.sanityRate = "" then b'.sanityMargin = Dec.zero
  else Dec.parse r.sanityMargin = .ok b'.sanityMargin

/-- A margin that goes with the rate is as the edit has it where the two texts agree on whether they
are to be read. Where only one of them is, it has to read as the margin that the bond has. -/
theorem MarginFollows.renewed_iff (h : r.MarginFollows keep b b') :
    r.MarginRenewed keep b b' ↔
      (r.sanityRate = keep → r.sanityMargin ≠ keep →
        Dec.parse r.sanityMargin = .ok b.sanityMargin) ∧
      (r.sanityRate ≠ keep → r.sanityRate ≠ "" → r.sanityMargin = keep →
        Dec.parse keep = .ok b.sanityMargin) := by
  unfold MarginFollows at h
  unfold MarginRenewed Renewed
  by_cases hrate : r.sanityRate = keep
  · rw [if_pos hrate] at h
    rw [if_neg (not_and_of_not_left _ (not_not.2 hrate)), h]
    by_cases hmargin : r.sanityMargin = keep <;> simp [hrate, hmargin]
  · rw [if_neg hrate] at h
    by_cases hempty : r.sanityRate = ""
    · rw [if_pos hempty] at h
      rw [if_pos ⟨hrate, hempty⟩]
      exact iff_of_true h ⟨fun hkeep => absurd hkeep hrate, fun _ hsome => absurd hempty hsome⟩
    · rw [if_neg hempty] at h
      rw [if_neg (not_and_of_not_right _ hempty)]
      by_cases hmargin : r.sanityMargin = keep
      · rw [if_pos hmargin, ← hmargin, h, Except.ok.injEq]
        simp [hrate, hempty, hmargin]
      · rw [if_neg hmargin]
        simp [hrate, hmargin, h]

/-! ### Edits that are let in -/

theorem limits_eq_ok {c : Coins} (h : r.limits keep b = .ok c) :
    Renewed keep r.orderLimits Coins.parse b.orderLimits c := by
  unfold limits at h
  unfold Renewed
  split at h
  · cases h
    rw [if_pos ‹_›]
  · rw [if_neg ‹_›]
    cases hparse : Coins.parse r.orderLimits with
    | ok c' =>
        rw [hparse] at h
        exact h
    | error e =>
        rw [hparse] at h
        cases h

theorem sanity_eq_ok {rate margin : Dec} (h : r.sanity keep b = .ok (rate, margin)) :
    Renewed keep r.sanityRate readRate b.sanityRate rate ∧
      r.MarginFollows keep b { b with sanityMargin := margin } := by
  unfold sanity at h
  unfold Renewed MarginFollows readRate
  split at h
  · cases h
    exact ⟨by rw [if_pos ‹_›], by rw [if_pos ‹_›]⟩
  · split at h
    · cases h
      exact ⟨by rw [if_neg ‹_›, if_pos ‹_›], by rw [if_neg ‹_›, if_pos ‹_›]⟩
    · simp only [Result.bind_eq_ok] at h
      obtain ⟨rate', hrate, _, -, margin', hmargin, _, -, he⟩ := h
      cases he
      refine ⟨?_, ?_⟩
      · rw [if_neg ‹_›, if_neg ‹_›]
        exact Check.decimal_eq_ok hrate
      · rw [if_neg ‹_›, if_neg ‹_›]
        exact Check.decimal_eq_ok hmargin

theorem apply_eq_ok (h : r.apply keep b = .ok b') :
    r.Renews keep b b' ∧ r.MarginFollows keep b b' := by
  simp only [apply, Result.bind_eq_ok] at h
  obtain ⟨limits, hlimits, sanity, hsanity, he⟩ := h
  cases he
  obtain ⟨hrate, hmargin⟩ := sanity_eq_ok hsanity
  refine ⟨⟨?_, ?_, limits_eq_ok hlimits, hrate, rfl⟩, hmargin⟩
  · unfold Renewed
    dsimp only
    split <;> rfl
  · unfold Renewed
    dsimp only
    split <;> rfl

end EditBond

namespace Market

variable {cfg : Config} {m m' : Market} {r : EditBond} {b' : Bond}

theorem edited_eq_ok (h : m.edited cfg r = .ok b') :
    ∃ b, Table.get? m.store.bonds r.token = some b ∧
      r.Renews cfg.doNotModify b b' ∧ r.MarginFollows cfg.doNotModify b b' := by
  simp only [edited, Result.bind_eq_ok] at h
  obtain ⟨_, -, b, hb, _, -, happly⟩ := h
  exact ⟨b, bondFor_eq_ok hb, EditBond.apply_eq_ok happly⟩

theorem editBond_eq_ok (h : editBond cfg r m = .ok b' m') :
    m.edited cfg r = .ok b' ∧ m' = m.withBond r.token b' := by
  obtain ⟨b, hb, hset⟩ := exists_decided (x := fun m => m.edited cfg r) h
  cases hset
  exact ⟨hb, rfl⟩

/-- An edit that is let in changes one bond and nothing else of the market: no other bond, no batch
and no account. Of the bond it changes five fields at most. The name, the description, the order
limits and the rate are left alone or read anew as the edit says of each, the empty rate being none.
The margin goes with the rate, and that is as the edit says exactly if a margin that is asked for
beside a rate that is left alone is the one the bond has, and if the text that leaves a margin alone
beside a new rate reads as the one the bond has. -/
theorem editBond_renews_iff (h : editBond cfg r m = .ok b' m') :
    ∃ b, m.store.bond? r.token = some b ∧ m'.store.bond? r.token = some b' ∧
      r.Renews cfg.doNotModify b b' ∧ r.MarginFollows cfg.doNotModify b b' ∧
      (r.MarginRenewed cfg.doNotModify b b' ↔
        (r.sanityRate = cfg.doNotModify → r.sanityMargin ≠ cfg.doNotModify →
          Dec.parse r.sanityMargin = .ok b.sanityMargin) ∧
        (r.sanityRate ≠ cfg.doNotModify → r.sanityRate ≠ "" → r.sanityMargin = cfg.doNotModify →
          Dec.parse cfg.doNotModify = .ok b.sanityMargin)) ∧
      (∀ token ≠ r.token, m'.store.bond? token = m.store.bond? token) ∧
      m'.store.batches = m.store.batches ∧ m'.store.lastBatches = m.store.lastBatches ∧
      m'.ledger = m.ledger := by
  obtain ⟨hedited, rfl⟩ := editBond_eq_ok h
  obtain ⟨b, hb, hrenews, hfollows⟩ := edited_eq_ok hedited
  exact ⟨b, hb, get?_withBond .., hrenews, hfollows, hfollows.renewed_iff,
    fun token hne => Table.get?_set_of_ne _ hne.symm _, rfl, rfl, rfl⟩

end Market

/-! ### A margin alone -/

/-- A pool whose bond may be edited by one account, with a band of twenty percent around a half. -/
def signedPool : Bond where
  token := "abc"
  name := "n"
  description := "d"
  creator := "z"
  functionType := .swapper
  parameters := []
  reserveTokens := ["res", "rez"]
  txFee := Dec.zero
  exitFee := Dec.zero
  feeAddress := "fees"
  maxSupply := 1000
  reserveAddress := reserveAccountFor "abc"
  sanityRate := ⟨500000000000000000⟩
  sanityMargin := .ofInt 20
  signers := ["z"]

def signedMarket : Market where
  store := {
    bonds := [("abc", signedPool)]
    batches := [("abc", { token := "abc", blocksRemaining := 1 })] }

namespace Market

theorem editBond_renews_band :
    let r : EditBond := {
      token := "abc", editor := "z", signers := ["z"], name := "Renamed", orderLimits := "10abc",
      sanityRate := "0.25", sanityMargin := "10" }
    ∃ b' m', editBond {} r signedMarket = .ok b' m' ∧
      b' = { signedPool with
        name := "Renamed", orderLimits := [("abc", 10)], sanityRate := ⟨250000000000000000⟩,
        sanityMargin := .ofInt 10 } ∧
      r.Renews doNotModify signedPool b' ∧ r.MarginRenewed doNotModify signedPool b' ∧
      m'.store.bond? "abc" = some b' ∧ m'.ledger = signedMarket.ledger := by
  intro r
  have hedit : (editBond {} r).Sat signedMarket (fun b' _ => b' = { signedPool with
      name := "Renamed", orderLimits := [("abc", 10)], sanityRate := ⟨250000000000000000⟩,
      sanityMargin := .ofInt 10 }) fun _ _ => False := by
    decide +kernel
  obtain ⟨b', m', hrun, hb'⟩ := hedit.exists_ok
  obtain ⟨b, hb, hnew, hrenews, -, hmargin, -, -, -, hledger⟩ := editBond_renews_iff hrun
  obtain rfl := Option.some.inj hb
  exact ⟨b', m', hrun, hb', hrenews,
    hmargin.2 ⟨fun hrate => absurd hrate (by decide), fun _ _ hkeep => absurd hkeep (by decide)⟩,
    hnew, hledger⟩

/-- A margin of five percent alone is let in, and the bond keeps that of twenty. -/
theorem editBond_marginAlone :
    let r : EditBond := { token := "abc", editor := "z", signers := ["z"], sanityMargin := "5" }
    ∃ m', editBond {} r signedMarket = .ok signedPool m' ∧ r.sanityMargin ≠ doNotModify ∧
      Dec.parse r.sanityMargin = .ok (.ofInt 5) ∧ signedPool.sanityMargin = .ofInt 20 ∧
      ¬ r.MarginRenewed doNotModify signedPool signedPool := by
  intro r
  have hedit : (editBond {} r).Sat signedMarket (fun b' _ => b' = signedPool)
      fun _ _ => False := by
    decide +kernel
  obtain ⟨_, m', hrun, rfl⟩ := hedit.exists_ok
  have hparse : Dec.parse r.sanityMargin = .ok (.ofInt 5) := by decide +kernel
  refine ⟨m', hrun, by decide, hparse, rfl, ?_⟩
  rw [EditBond.MarginRenewed, if_neg (by decide), Renewed, if_neg (by decide), hparse]
  decide

end Market
end BondMarket
