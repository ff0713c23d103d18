import BondMarket.Market.Handler
import BondMarket.Proofs.Lifecycle
import BondMarket.Proofs.Withdrawal

/-!
Runs of a market. A run is any sequence of requests, accepted or turned down, over any number of
bonds, mixed with what users do to the ledger by themselves: they pay each other, and get coins
that are no bond tokens. It starts from nothing and ends where a fatal error would be raised.

Every market that such a run leads to is sound. What is claimed of runs is read off the soundness
of the market at their end.
-/

namespace BondMarket

/-! ### Events -/

/-- The accounts that a request moves coins from or to belong to users, and the outcome payment
of a bond names every denomination once. Who edits a bond, and who is recorded as its creator, is
of no account. -/
def Request.Clean (cfg : Config) : Request → Prop
  | .create r => cfg.IsUser r.feeAddress ∧ (Table.keys r.outcomePayment).Nodup
  | .edit _ | .cycle _ | .endCycle => True
  | .buy r => cfg.IsUser r.buyer
  | .sell r => cfg.IsUser r.seller
  | .swap r => cfg.IsUser r.swapper
  | .pay r => cfg.IsUser r.sender
  | .withdraw r => cfg.IsUser r.recipient

/-- What users do to the ledger: they get coins that are not `bonded`, or pay each other. -/
def LedgerCall.Clean (cfg : Config) (bonded : Denom → Prop) : LedgerCall → Prop
  | mint a es => cfg.IsUser a ∧ (Table.keys es).Nodup ∧ ∀ d ∈ Table.keys es, ¬ bonded d
  | burn _ _ => False
  | transfer a b es => cfg.IsUser a ∧ cfg.IsUser b ∧ (Table.keys es).Nodup

inductive Event where
  | request (r : Request)
  | post (c : LedgerCall)

namespace Event

def Clean (cfg : Config) (bonded : Denom → Prop) : Event → Prop
  | request r => r.Clean cfg
  | post c => c.Clean cfg bonded

/-- The market after an event, and the answers so far. What is turned down goes without an answer;
after a fatal error nothing goes on. -/
def apply (cfg : Config) (log : List Response) (m : Market) : Event →
    Option (List Response × Market)
  | request r =>
    match Market.handle cfg r m with
    | .ok answer m' => some (log ++ [answer], m')
    | .error e m' => if e.isFatal then none else some (log, m')
  | post c =>
    match m.ledger.run c with
    | .ok ledger => some (log, { m with ledger })
    | .error _ => some (log, m)

end Event

def Response.fillsOf (token : Denom) : Response → Nat
  | .cycle s => Settlement.fillsIn s.toList token
  | .settlements ss => Settlement.fillsIn ss token
  | _ => 0

def fillsSoFar (log : List Response) (token : Denom) : Nat := (log.map (·.fillsOf token)).sum

/-- The runs of a market whose bonds are all of `bonded` denominations: the answers given and the
market reached. -/
inductive CleanRun (cfg : Config) (bonded : Denom → Prop) : List Response → Market → Prop
  | start (hcfg : cfg.Separate) : CleanRun cfg bonded [] {}
  | step {log log' : List Response} {m m' : Market} {e : Event} (h : CleanRun cfg bonded log m)
      (he : e.Clean cfg bonded) (hm : e.apply cfg log m = some (log', m'))
      (hbonded : ∀ t ∈ Table.keys m'.store.bonds, bonded t) : CleanRun cfg bonded log' m'

inductive Leads (cfg : Config) (bonded : Denom → Prop) (log : List Response) (m : Market) :
    List Event → List Response → Market → Prop
  | nil : Leads cfg bonded log m [] log m
  | snoc {es : List Event} {log₁ log' : List Response} {m₁ m' : Market} {e : Event}
      (h : Leads cfg bonded log m es log₁ m₁) (he : e.Clean cfg bonded)
      (hm : e.apply cfg log₁ m₁ = some (log', m'))
      (hbonded : ∀ t ∈ Table.keys m'.store.bonds, bonded t) :
      Leads cfg bonded log m (es ++ [e]) log' m'

theorem Leads.cleanRun {cfg : Config} {bonded : Denom → Prop} {log log' : List Response}
    {m m' : Market} {es : List Event} (h : Leads cfg bonded log m es log' m')
    (hrun : CleanRun cfg bonded log m) : CleanRun cfg bonded log' m' := by
  induction h with
  | nil => exact hrun
  | snoc _ he hm hbonded ih => exact ih.step he hm hbonded

namespace Market

variable {cfg : Config} {bonded : Denom → Prop} {fills : Denom → Nat} {m m' : Market}

theorem handle_sat (hsep : cfg.Separate) (h : Sound cfg bonded fills m) {r : Request}
    (hr : r.Clean cfg) :
    (handle cfg r).Sat m
      (fun answer m' => ((∀ t ∈ Table.keys m'.store.bonds, bonded t) →
        Sound cfg bonded (fun t => fills t + answer.fillsOf t) m') ∧ Spared m m' ∧ Lasting m m')
      (Refused m) := by
  -- Most requests answer without filling orders.
  have hplain {α : Type} {act : Action α} {f : α → Response}
      {S : α → Market → Prop} (hf : ∀ a t, (f a).fillsOf t = 0)
      (hS : ∀ a m', S a m' → ∃ token R, Worked token R m m')
      (hact : act.Sat m (fun a m' => Sound cfg bonded fills m' ∧ S a m') (Refused m)) :
      (f <$> act).Sat m
        (fun answer m' => ((∀ t ∈ Table.keys m'.store.bonds, bonded t) →
          Sound cfg bonded (fun t => fills t + answer.fillsOf t) m') ∧ Spared m m' ∧ Lasting m m')
        (Refused m) := by
    rw [Action.sat_map]
    apply hact.imp
    intro a m' hm'
    obtain ⟨_, _, hworked⟩ := hS a m' hm'.2
    refine ⟨fun _ => ?_, hworked.spared, hworked.apart.lasting⟩
    simpa only [hf, add_zero] using hm'.1
  cases r with
  | create r =>
      simp only [handle, Action.sat_map]
      exact (createBond_sat hsep h r hr.1 hr.2).imp fun _ _ hs =>
        ⟨hs.1, hs.2.spared, hs.2.lasting⟩
  | edit r => exact hplain (fun _ _ => rfl) (fun _ _ hs => ⟨_, _, hs.1⟩) (editBond_sat h r)
  | buy r => exact hplain (fun _ _ => rfl) (fun _ _ hs => ⟨_, _, hs⟩) (submitBuy_sat hsep h r hr)
  | sell r => exact hplain (fun _ _ => rfl) (fun _ _ hs => ⟨_, _, hs⟩) (submitSell_sat hsep h r hr)
  | swap r => exact hplain (fun _ _ => rfl) (fun _ _ hs => ⟨_, _, hs⟩) (submitSwap_sat hsep h r hr)
  | pay r =>
      exact hplain (fun _ _ => rfl) (fun _ _ ⟨_, hs⟩ => ⟨_, _, hs.worked⟩)
        (payOutcome_sat hsep h r hr)
  | withdraw r =>
      exact hplain (fun _ _ => rfl) (fun _ _ ⟨_, hs⟩ => ⟨_, _, hs.worked⟩)
        (withdrawShare_sat hsep h r hr)
  | cycle token =>
      simp only [handle, Action.sat_map]
      exact (elapseCycle_sat hsep h token).mono (fun _ _ hs => ⟨fun _ => hs.1, hs.2.1, hs.2.2.1⟩)
        fun _ _ he => ⟨.inr he.1, he.2⟩
  | endCycle =>
      simp only [handle, Action.sat_map]
      exact (endCycle_sat hsep h).mono (fun _ _ hs => ⟨fun _ => hs.1, hs.2.1, hs.2.2.1⟩)
        fun _ _ he => ⟨.inr he.1, he.2⟩

theorem Posted.clean (h : m.ledger.Solvent) {c : LedgerCall} {ledger : Ledger}
    (hc : c.Clean cfg bonded) (hrun : m.ledger.run c = .ok ledger) :
    m.Posted { m with ledger } (fun a d => c.flow a d) (fun d => c.made d) ∧
      (∀ d, c.flow cfg.escrowAccount d = 0) ∧ (∀ u d, c.flow (reserveAccountFor u) d = 0) ∧
      ∀ d, bonded d → c.made d = 0 := by
  cases c with
  | mint a es =>
      obtain ⟨ha, hdistinct, hes⟩ := hc
      obtain ⟨hbalance, htotal, hsolvent⟩ := Ledger.run_spec (.mint a es) h
        (fun cs hcs => Coins.proper_of_ofEntries hcs hdistinct) hrun
      refine ⟨⟨rfl, rfl, hbalance, htotal, hsolvent⟩, fun d => if_neg ha.ne_escrow,
        fun u d => if_neg (ha.ne_reserve u), fun d hd => ?_⟩
      exact CoinEntries.amountOf_of_not_mem fun hmem => hes d hmem hd
  | burn a es => exact hc.elim
  | transfer a a' es =>
      obtain ⟨ha, ha', hdistinct⟩ := hc
      obtain ⟨hbalance, htotal, hsolvent⟩ := Ledger.run_spec (.transfer a a' es) h
        (fun cs hcs => Coins.proper_of_ofEntries hcs hdistinct) hrun
      refine ⟨⟨rfl, rfl, hbalance, htotal, hsolvent⟩, fun d => ?_, fun u d => ?_, fun _ _ => rfl⟩
      · simp [LedgerCall.flow, ha.ne_escrow, ha'.ne_escrow]
      · simp [LedgerCall.flow, ha.ne_reserve, ha'.ne_reserve]

theorem Sound.post (h : Sound cfg bonded fills m) {c : LedgerCall} {ledger : Ledger}
    (hc : c.Clean cfg bonded) (hrun : m.ledger.run c = .ok ledger) :
    Sound cfg bonded fills { m with ledger } := by
  obtain ⟨hpost, hescrow, hreserve, hmade⟩ := Posted.clean h.kept.solvent hc hrun
  set m' : Market := { m with ledger }
  have hbalance (t d) : m'.balance (reserveAccountFor t) d = m.balance (reserveAccountFor t) d := by
    rw [balance, hpost.balance, hreserve, add_zero]
  have htotal (t) (ht : bonded t) : m'.ledger.totalSupply t = m.ledger.totalSupply t := by
    rw [hpost.total, hmade t ht, add_zero]
  refine ⟨⟨h.kept.refusals, h.kept.distinct, hpost.solvent, fun t b hb => ?_, fun t ht => ?_,
    fun d => ?_⟩, fun t b β hb hβ => ?_, h.trades, fun t b β hb hβ hhatch => ?_, fun t b hb => ?_,
    fun t b hb => ?_⟩
  · obtain ⟨hbonded, β, hβ, hheld⟩ := h.kept.held t b hb
    exact ⟨hbonded, β, hβ, hheld.congr (hbalance t) (htotal t hbonded)⟩
  · obtain ⟨hzero, hnone, hlast⟩ := h.kept.vacant t ht
    exact ⟨fun d => (hbalance t d).trans (hzero d),
      fun hbonded => (htotal t hbonded).trans (hnone hbonded), hlast⟩
  · rw [balance, hpost.balance, hescrow, add_zero]
    exact h.kept.escrow d
  · exact (h.current t b β hb hβ).congr ((h.kept.formed hb).address ▸ hbalance t)
  · exact (h.hatching t b β hb hβ hhatch).congr ((h.kept.formed hb).address ▸ hbalance t) rfl
  · exact (h.backed t b hb).congr ((h.kept.formed hb).address ▸ hbalance t)
  · exact (h.stocked t b hb).congr ((h.kept.formed hb).address ▸ hbalance t)

theorem Sound.empty : Sound cfg bonded fills {} where
  kept :=
    { refusals := rfl, distinct := List.nodup_nil, solvent := fun _ _ => le_rfl
      held := fun _ _ hb => by cases hb
      vacant := fun _ _ => ⟨fun _ => rfl, fun _ => rfl, rfl⟩
      escrow := fun _ => rfl }
  current _ _ _ hb := by cases hb
  trades _ _ _ hb := by cases hb
  hatching _ _ _ hb := by cases hb
  backed _ _ hb := by cases hb
  stocked _ _ hb := by cases hb

/-- All that an event can have done: it was a request that was answered, it was turned down and has
left the market as it was, or users have posted to the ledger. -/
theorem Sound.apply_cases {log log' : List Response} {e : Event} (hsep : cfg.Separate)
    (h : Sound cfg bonded fills m) (he : e.Clean cfg bonded)
    (hm : e.apply cfg log m = some (log', m')) :
    (∃ r answer, e = .request r ∧ r.Clean cfg ∧ handle cfg r m = .ok answer m' ∧
        log' = log ++ [answer]) ∨
      (m' = m ∧ log' = log) ∨
      ∃ c ledger, e = .post c ∧ c.Clean cfg bonded ∧ m.ledger.run c = .ok ledger ∧
        m' = { m with ledger } ∧ log' = log := by
  cases e with
  | request r =>
      cases hrun : handle cfg r m with
      | ok answer m₁ =>
          simp only [Event.apply, hrun, Option.some.injEq, Prod.mk.injEq] at hm
          obtain ⟨rfl, rfl⟩ := hm
          exact .inl ⟨r, answer, rfl, he, hrun, rfl⟩
      | error err m₁ =>
          simp only [Event.apply, hrun] at hm
          split at hm
          · cases hm
          · -- What is turned down without a fatal error has left the market as it was.
            rename_i hfatal
            simp only [Option.some.injEq, Prod.mk.injEq] at hm
            obtain ⟨rfl, rfl⟩ := hm
            obtain hsame := ((handle_sat hsep h (r := r) he).of_error hrun).1
            exact .inr (.inl ⟨hsame.resolve_right hfatal, rfl⟩)
  | post c =>
      cases hrun : m.ledger.run c with
      | ok ledger =>
          simp only [Event.apply, hrun, Option.some.injEq, Prod.mk.injEq] at hm
          obtain ⟨rfl, rfl⟩ := hm
          exact .inr (.inr ⟨c, ledger, rfl, he, hrun, rfl, rfl⟩)
      | error err =>
          simp only [Event.apply, hrun, Option.some.injEq, Prod.mk.injEq] at hm
          obtain ⟨rfl, rfl⟩ := hm
          exact .inr (.inl ⟨rfl, rfl⟩)

theorem Sound.apply {log log' : List Response} {e : Event} (hsep : cfg.Separate)
    (h : Sound cfg bonded (fillsSoFar log) m) (he : e.Clean cfg bonded)
    (hm : e.apply cfg log m = some (log', m'))
    (hbonded : ∀ t ∈ Table.keys m'.store.bonds, bonded t) :
    Sound cfg bonded (fillsSoFar log') m' := by
  rcases h.apply_cases hsep he hm with ⟨r, answer, -, hr, hrun, rfl⟩ | ⟨rfl, rfl⟩ |
    ⟨c, ledger, -, hc, hrun, rfl, rfl⟩
  · have hfills : fillsSoFar (log ++ [answer]) =
        fun t => fillsSoFar log t + answer.fillsOf t := by
      funext t
      simp [fillsSoFar]
    rw [hfills]
    exact ((handle_sat hsep h hr).of_ok hrun).1 hbonded
  · exact h
  · exact h.post hc hrun

end Market

theorem CleanRun.sound {cfg : Config} {bonded : Denom → Prop} {log : List Response} {m : Market}
    (h : CleanRun cfg bonded log m) :
    cfg.Separate ∧ Market.Sound cfg bonded (fillsSoFar log) m := by
  induction h with
  | start hcfg => exact ⟨hcfg, Market.Sound.empty⟩
  | step _ he hm hbonded ih =>
      obtain ⟨hsep, hsound⟩ := ih
      exact ⟨hsep, hsound.apply hsep he hm hbonded⟩

/-- In every run, a batch whose blocks are counted down leaves a sound market, where the pass over
its buys comes to its end. -/
theorem CleanRun.exists_swept {cfg : Config} {bonded : Denom → Prop} {log : List Response}
    {m : Market} (h : CleanRun cfg bonded log m) {t : Denom} {b : Bond} {β : Batch}
    (hb : m.store.bond? t = some b) (hβ : m.store.batch t = .ok β) :
    Table.get? m.store.batches t = some β ∧
      let counted : Batch := { β with blocksRemaining := β.blocksRemaining - 1 }
      Market.Sound cfg bonded (fillsSoFar log) (m.withBatch t counted) ∧
        ∃ os m' β', Market.cancelUnfulfillable cfg t (m.withBatch t counted) = .ok os m' ∧
          Market.Swept cfg bonded t b counted β' (m.withBatch t counted) m' := by
  obtain ⟨hsep, hsound⟩ := h.sound
  obtain ⟨-, β₀, hβ₀, -⟩ := hsound.kept.held t b hb
  obtain rfl : β₀ = β := Except.ok.inj ((Market.batch_eq_ok hβ₀).symm.trans hβ)
  refine ⟨hβ₀, ?_⟩
  intro counted
  have hcounted := hsound.countDown hb hβ₀ (β₀.blocksRemaining - 1)
  have hbatch := Market.get?_withBatch m t counted
  obtain ⟨os, m', hrun, β', hswept⟩ := (Market.cancelUnfulfillable_sat hsep hcounted.kept hb hbatch
    (hcounted.current t b counted hb hbatch)).exists_ok
  exact ⟨hcounted, os, m', β', hrun, hswept⟩

theorem CleanRun.answered {cfg : Config} {bonded : Denom → Prop} {log : List Response}
    {m m' : Market} (h : CleanRun cfg bonded log m) {r : Request} {answer : Response}
    (hm : Market.handle cfg r m = .ok answer m') (hr : r.Clean cfg)
    (hkept : Market.Kept cfg bonded m') : CleanRun cfg bonded (log ++ [answer]) m' :=
  h.step (e := .request r) hr (by simp only [Event.apply, hm]) fun _ ht => hkept.bonded_of_mem ht

/-! ### Runs that can be computed -/

section Computed

variable {cfg : Config} {tokens : List Denom}

instance Request.decidableClean (cfg : Config) : (r : Request) → Decidable (r.Clean cfg)
  | .create r => inferInstanceAs (Decidable (cfg.IsUser r.feeAddress ∧ _))
  | .edit _ => inferInstanceAs (Decidable True)
  | .buy r => inferInstanceAs (Decidable (cfg.IsUser r.buyer))
  | .sell r => inferInstanceAs (Decidable (cfg.IsUser r.seller))
  | .swap r => inferInstanceAs (Decidable (cfg.IsUser r.swapper))
  | .pay r => inferInstanceAs (Decidable (cfg.IsUser r.sender))
  | .withdraw r => inferInstanceAs (Decidable (cfg.IsUser r.recipient))
  | .cycle _ => inferInstanceAs (Decidable True)
  | .endCycle => inferInstanceAs (Decidable True)

instance LedgerCall.decidableClean (cfg : Config) (tokens : List Denom) :
    (c : LedgerCall) → Decidable (c.Clean cfg (· ∈ tokens))
  | mint a es => inferInstanceAs (Decidable (cfg.IsUser a ∧ (Table.keys es).Nodup ∧
      ∀ d ∈ Table.keys es, ¬ d ∈ tokens))
  | burn _ _ => inferInstanceAs (Decidable False)
  | transfer a b es =>
    inferInstanceAs (Decidable (cfg.IsUser a ∧ cfg.IsUser b ∧ (Table.keys es).Nodup))

instance Event.decidableClean (cfg : Config) (tokens : List Denom) :
    (e : Event) → Decidable (e.Clean cfg (· ∈ tokens))
  | request r => Request.decidableClean cfg r
  | post c => LedgerCall.decidableClean cfg tokens c

/-- The answers and the market after further events, if they keep the run clean. -/
def playClean (cfg : Config) (tokens : List Denom) (log : List Response) (m : Market) :
    List Event → Option (List Response × Market)
  | [] => some (log, m)
  | e :: es =>
    if e.Clean cfg (· ∈ tokens) then
      match e.apply cfg log m with
      | some (log', m') =>
        if ∀ t ∈ Table.keys m'.store.bonds, t ∈ tokens then playClean cfg tokens log' m' es
        else none
      | none => none
    else none

theorem Leads.of_playClean {es : List Event} {log log' : List Response} {m m' : Market}
    (hes : playClean cfg tokens log m es = some (log', m')) :
    Leads cfg (· ∈ tokens) log m es log' m' := by
  suffices hgen : ∀ done log₁ m₁, Leads cfg (· ∈ tokens) log m done log₁ m₁ →
      playClean cfg tokens log₁ m₁ es = some (log', m') →
      Leads cfg (· ∈ tokens) log m (done ++ es) log' m' from hgen [] log m .nil hes
  clear hes
  induction es with
  | nil =>
      intro done log₁ m₁ h hes
      cases hes
      rwa [List.append_nil]
  | cons e es ih =>
      intro done log₁ m₁ h hes
      rw [playClean] at hes
      split at hes
      · rename_i hclean
        split at hes
        · rename_i log₂ m₂ happly
          split at hes
          · rename_i htokens
            rw [List.append_cons]
            exact ih _ _ _ (h.snoc hclean happly htokens) hes
          · cases hes
        · cases hes
      · cases hes

theorem CleanRun.of_playClean {es : List Event} {log log' : List Response} {m m' : Market}
    (h : CleanRun cfg (· ∈ tokens) log m)
    (hes : playClean cfg tokens log m es = some (log', m')) :
    CleanRun cfg (· ∈ tokens) log' m' :=
  (Leads.of_playClean hes).cleanRun h

theorem CleanRun.exists_of_playClean (tokens : List Denom) (es : List Event)
    (check : Market → Bool)
    (h : (playClean {} tokens [] {} es).any (fun s => check s.2) = true) :
    ∃ log m, CleanRun {} (· ∈ tokens) log m ∧ check m = true := by
  obtain ⟨⟨log, m⟩, hplay, hcheck⟩ := (Option.any_eq_true _ _).1 h
  exact ⟨log, m, (CleanRun.start Config.separate_default).of_playClean hplay, hcheck⟩

end Computed

/-- A bond with a flat price of a tenth of a unit, buys that have been settled, and two buys and a
sell that wait for the next settlement. -/
def flatPriceEvents : List Event :=
  let buy (buyer : Account) (amount : Nat) : Event :=
    .request (.buy { buyer, amount := ⟨"abc", amount⟩, maxPrices := [("res", some 1)] })
  [.post (.mint "alice" [("res", some 6)]),
    .post (.mint "bob" [("res", some 1)]),
    .post (.mint "carol" [("res", some 1)]),
    .request (.create {
      token := "abc"
      name := "n"
      description := "d"
      creator := "z"
      functionType := "power_function"
      parameters := [("m", Dec.zero), ("n", Dec.zero), ("c", ⟨100000000000000000⟩)]
      reserveTokens := ["res"]
      txFee := Dec.zero
      exitFee := Dec.zero
      feeAddress := "fees"
      maxSupply := ⟨"abc", 1000⟩
      signers := ["z"] }),
    buy "alice" 3, buy "alice" 3, buy "alice" 3, buy "alice" 3, buy "alice" 3, buy "alice" 4,
    .request (.cycle "abc"),
    buy "bob" 22, buy "carol" 19,
    .request (.sell { seller := "alice", amount := ⟨"abc", 19⟩ })]

theorem exists_flatPriceRun (check : Market → Bool)
    (h : (playClean {} ["abc"] [] {} flatPriceEvents).any (fun s => check s.2) = true) :
    ∃ log m, CleanRun {} (· ∈ ["abc"]) log m ∧ check m = true :=
  CleanRun.exists_of_playClean ["abc"] flatPriceEvents check h

/-- A bond in its hatch, of whose price four tenths are funding, with a buy that has been settled
and another that waits. The hatch ends at ten tokens. -/
def hatchEvents : List Event :=
  let buy (amount : Nat) : Event := .request (.buy {
    buyer := "alice", amount := ⟨"abc", amount⟩, maxPrices := [("res", some (amount + 1))] })
  [.post (.mint "alice" [("res", some 20)]),
    .request (.create {
      token := "abc"
      name := "n"
      description := "d"
      creator := "z"
      functionType := "augmented_function"
      parameters := [("d0", Dec.ofInt 10), ("p0", Dec.one), ("theta", ⟨400000000000000000⟩),
        ("kappa", Dec.one)]
      reserveTokens := ["res"]
      txFee := Dec.zero
      exitFee := Dec.zero
      feeAddress := "fees"
      maxSupply := ⟨"abc", 1000⟩
      signers := ["z"] }),
    buy 4, .request (.cycle "abc"), buy 5]

end BondMarket
