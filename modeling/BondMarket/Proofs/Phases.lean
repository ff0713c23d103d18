import BondMarket.Proofs.Limits

/-!
The phases of a bond. Only an augmented bond begins in a hatch; it is opened by the close that
brings its supply to the end of the hatch, and an open bond is settled by its outcome payment. There
is no way back, and each phase keeps its rules: in a hatch nothing is sold, and a settled bond is at
rest.

That it is at rest comes of two things. The outcome payment is turned down while orders are pending,
so that a bond is settled with a batch that has none, and from then on every order is turned down. A
batch without open orders does nothing when it is closed, apart from reporting once more the buys
that had been cancelled before.
-/

namespace BondMarket

def Response.reports : Response → List Settlement
  | .cycle s => s.toList
  | .settlements ss => ss
  | _ => []

def settlementsIn (answers : List Response) : List Settlement :=
  answers.flatMap fun answer => answer.reports

namespace Event

def Pays (token : Denom) : Event → Prop
  | request (.pay r) => r.bondToken = token
  | _ => False

def Withdraws (token : Denom) : Event → Prop
  | request (.withdraw r) => r.bondToken = token
  | _ => False

end Event

namespace Market

/-- What events leave of a bond `b` that has been settled, with the batch `β`. What is reported of
it are buys of this batch that had been cancelled. Without a withdrawal its supply and its reserve
stay as they are. -/
structure Rested (es : List Event) (ss : List Settlement) (token : Denom) (b : Bond) (β : Batch)
    (m : Market) (b' : Bond) (m' : Market) : Prop where
  phase : b'.phase = .settled
  supply_le : b'.supply ≤ b.supply
  batch : ∃ β', Table.get? m'.store.batches token = some β' ∧ β'.buys ⊆ β.buys
  reported : ∀ s ∈ ss, s.token = token → ∀ out ∈ s.outcomes,
    ∃ o ∈ β.buys, o.isOpen = false ∧ out = .ofCancelledBuy o
  unchanged : (∀ e ∈ es, ¬ e.Withdraws token) → b'.supply = b.supply ∧
    ∀ d, m'.balance (reserveAccountFor token) d = m.balance (reserveAccountFor token) d

/-- What an event may do to a bond `b` with the batch `β`, where it reports settlements. A bond that
has not been settled stays in its phase, is opened at the end of its hatch or is settled; one that
has been settled is at rest. -/
inductive Turn (e : Event) (ss : List Settlement) (token : Denom) (b : Bond) (β : Batch)
    (m : Market) (b' : Bond) (m' : Market) : Prop
  | stays (hlive : b.phase ≠ .settled) (hphase : b'.phase = b.phase)
  | opens (hhatch : b.phase = .hatch)
      (hclose : ∃ s ∈ ss, s.token = token ∧ s.newPhase = some .opened)
      (hopened : b'.phase = .opened) (hsells : b'.allowSells = true)
      (hend : ∃ s0, b'.parameters.value "S0" = .ok s0 ∧ b'.supply = s0.ceilInt)
  | settles (hopened : b.phase = .opened) (hpays : e.Pays token) (hsettled : b'.phase = .settled)
  | rests (hsettled : b.phase = .settled) (hrested : Rested [e] ss token b β m b' m')

/-- What an event may do to a market: no bond goes, every bond takes a turn, and a new bond begins
in a hatch if it is augmented. -/
structure Turned (e : Event) (ss : List Settlement) (m m' : Market) : Prop where
  turn : ∀ t b β, Table.get? m.store.bonds t = some b → Table.get? m.store.batches t = some β →
    ∃ b', Table.get? m'.store.bonds t = some b' ∧ Turn e ss t b β m b' m'
  new : ∀ t b', Table.get? m.store.bonds t = none → Table.get? m'.store.bonds t = some b' →
    b'.phase = if b'.isAugmented then .hatch else .opened

variable {cfg : Config} {bonded : Denom → Prop} {fills : Denom → Nat} {m m₁ m₂ m' : Market}
  {token t : Denom} {b b₁ b' : Bond} {β β₁ : Batch} {e : Event} {es es' : List Event}
  {ss ss' : List Settlement}

/-! ### Rest -/

theorem Sound.hasOpenOrders_eq_false (h : Sound cfg bonded fills m)
    (hb : Table.get? m.store.bonds token = some b)
    (hβ : Table.get? m.store.batches token = some β) (hsettled : b.phase = .settled) :
    β.hasOpenOrders = false := by
  have hheld := h.kept.held_of_get? hb hβ
  obtain ⟨hbuy, hsell⟩ := hheld.settled hsettled
  refine hheld.orders.hasOpenOrders_eq_false hbuy hsell ?_
  by_contra hne
  exact (h.trades token b β hb hβ hne).2.1 hsettled

theorem settle_idle (h : Kept cfg bonded m) (hb : Table.get? m.store.bonds token = some b)
    (hβ : Table.get? m.store.batches token = some β) (hnone : β.hasOpenOrders = false) :
    settle cfg token m = .ok (β.settlement token []) m := by
  have hheld := h.held_of_get? hb hβ
  obtain ⟨⟨hbuy, hsell⟩, hswaps⟩ := totals_eq_zero hheld.orders hnone
  have hbuys := hheld.orders.openBuys_eq_nil hbuy
  have hpass : cancelUnfulfillable cfg token m = .ok [] m := by
    refine cancelUnfulfillable_eq_nil hb hβ fun o ho hopen => ?_
    have hmem : o ∈ β.openBuys := List.mem_filter.2 ⟨ho, hopen⟩
    rw [hbuys] at hmem
    exact (List.not_mem_nil hmem).elim
  have hperformed : (performOrders cfg token).Sat m
      (fun outs m' => m'.violations token = .ok [] ∧ outs = [] ∧ m' = m) (fun _ _ => False) := by
    simp only [performOrders, Action.sat_bind, Action.sat_get,
      Action.sat_lift_of_ok (batch_eq_ok hβ), hbuys, hheld.orders.openSells_eq_nil hsell, hswaps,
      List.length_nil, List.range_zero, gather, Action.sat_pure, List.append_nil]
    exact ⟨violations_eq_nil hheld h.solvent hb hβ hheld.orders.violations_eq_nil, trivial, trivial⟩
  obtain ⟨_, _, hrun, _, rfl, rfl, rfl⟩ := (settle_sat_of_pass hpass hβ hperformed).exists_ok
  exact hrun

theorem Matured.eq_self {phase : Option Phase} (h : Matured b phase b')
    (hhatch : b.inHatch = false) : b' = b := by
  cases h with
  | same => rfl
  | opened hopen => cases hhatch.symm.trans hopen

theorem Closed.token_eq {s : Settlement} (h : Closed cfg bonded fills token b β m s m') :
    s.token = token := by
  obtain ⟨s₀, _, -, hsame, hdrained, -⟩ := h.settled
  rw [hsame]
  exact hdrained.token_eq

/-- Closing a batch without open orders leaves the ledger as it is, and with it the supply, of which
the ledger tells. It reports the buys that had been cancelled. -/
theorem Closed.idle {s : Settlement} (hsound : Sound cfg bonded fills m)
    (h : Closed cfg bonded fills token b β m s m')
    (hb : Table.get? m.store.bonds token = some b)
    (hβ : Table.get? m.store.batches token = some β) (hnone : β.hasOpenOrders = false)
    (hhatch : b.inHatch = false) :
    m'.ledger = m.ledger ∧
      s.outcomes = (β.buys.filter fun o => !o.isOpen).map Outcome.ofCancelledBuy ∧
      ∃ r, Table.get? m'.store.bonds token = some (b.marked b.supply r) := by
  have hheld := hsound.kept.held_of_get? hb hβ
  have hidle := settle_idle hsound.kept hb hβ hnone
  obtain ⟨s₀, m₁, hrun, hsame, -, hledger⟩ := h.settled
  cases hidle.symm.trans hrun
  obtain ⟨supply, r, b', hmatured, hb', -⟩ := h.bond
  obtain ⟨blocks, hblank⟩ := h.batch
  obtain rfl : b' = b.marked supply r := hmatured.eq_self hhatch
  have hsupply : supply = b.supply := by
    have hbefore := hheld.minted
    have hafter := (h.sound.kept.held_of_get? hb' hblank).minted
    rw [hledger, hbefore, (totals_eq_zero hheld.orders hnone).1.2, Bond.supply_marked] at hafter
    have hblank : (Batch.blank token blocks).totalSell = 0 := rfl
    omega
  refine ⟨hledger, ?_, r, hsupply ▸ hb'⟩
  rw [hsame]
  exact List.append_nil _

theorem Closed.rested {s : Settlement} (hsound : Sound cfg bonded fills m)
    (h : Closed cfg bonded fills token b β m s m')
    (hb : Table.get? m.store.bonds token = some b)
    (hβ : Table.get? m.store.batches token = some β) (hsettled : b.phase = .settled) :
    ∃ b', Table.get? m'.store.bonds token = some b' ∧
      Rested [e] [s] token b β m b' m' := by
  obtain ⟨hledger, hcancelled, r, hb'⟩ := h.idle hsound hb hβ
    (hsound.hasOpenOrders_eq_false hb hβ hsettled) (by simp [Bond.inHatch, hsettled])
  obtain ⟨blocks, hblank⟩ := h.batch
  refine ⟨_, hb', ⟨hsettled, le_rfl, ⟨_, hblank, List.nil_subset _⟩,
    fun s' hs' _ out hout => ?_, fun _ => ⟨rfl, fun d => by rw [balance, hledger]⟩⟩⟩
  obtain rfl := List.mem_singleton.1 hs'
  rw [hcancelled] at hout
  obtain ⟨o, ho, rfl⟩ := List.mem_map.1 hout
  obtain ⟨hmem, hclosed⟩ := List.mem_filter.1 ho
  exact ⟨o, hmem, by simpa using hclosed, rfl⟩

theorem Rested.trans (h : Rested es ss token b β m b₁ m₁)
    (hβ₁ : Table.get? m₁.store.batches token = some β₁)
    (h' : Rested es' ss' token b₁ β₁ m₁ b' m') :
    Rested (es ++ es') (ss ++ ss') token b β m b' m' := by
  obtain ⟨γ, hγ, hsub⟩ := h.batch
  obtain rfl : γ = β₁ := Option.some.inj (hγ.symm.trans hβ₁)
  obtain ⟨β', hβ', hsub'⟩ := h'.batch
  refine ⟨h'.phase, h'.supply_le.trans h.supply_le, ⟨β', hβ', List.Subset.trans hsub' hsub⟩,
    fun s hs htoken out hout => ?_, fun hnone => ?_⟩
  · rcases List.mem_append.1 hs with hs | hs
    · exact h.reported s hs htoken out hout
    · obtain ⟨o, ho, hclosed⟩ := h'.reported s hs htoken out hout
      exact ⟨o, hsub ho, hclosed⟩
  · obtain ⟨hsupply, hreserve⟩ := h.unchanged fun e he => hnone e (List.mem_append_left _ he)
    obtain ⟨hsupply', hreserve'⟩ := h'.unchanged fun e he => hnone e (List.mem_append_right _ he)
    exact ⟨hsupply'.trans hsupply, fun d => (hreserve' d).trans (hreserve d)⟩

/-! ### Turns -/

theorem Turn.of_same (hphase : b'.phase = b.phase) (hsupply : b'.supply = b.supply)
    (hβ : Table.get? m'.store.batches token = some β₁) (hbuys : β₁.buys = β.buys)
    (hreserve : ∀ d, m'.balance (reserveAccountFor token) d =
      m.balance (reserveAccountFor token) d)
    (hss : ∀ s ∈ ss, s.token ≠ token) : Turn e ss token b β m b' m' := by
  by_cases hsettled : b.phase = .settled
  · exact .rests hsettled ⟨hphase.trans hsettled, hsupply.le, ⟨β₁, hβ, hbuys ▸ List.Subset.refl _⟩,
      fun s hs htoken => absurd htoken (hss s hs), fun _ => ⟨hsupply, hreserve⟩⟩
  · exact .stays hsettled hphase

theorem Turn.rested (h : Turn e ss token b β m b' m') (hsettled : b.phase = .settled) :
    Rested [e] ss token b β m b' m' := by
  cases h with
  | rests _ hrested => exact hrested
  | stays hlive => exact absurd hsettled hlive
  | opens hhatch => cases hhatch.symm.trans hsettled
  | settles hopened => cases hopened.symm.trans hsettled

theorem Apart.turn (h : Apart t m m') (hne : token ≠ t)
    (hb : Table.get? m.store.bonds token = some b)
    (hβ : Table.get? m.store.batches token = some β) (hss : ∀ s ∈ ss, s.token ≠ token) :
    ∃ b', Table.get? m'.store.bonds token = some b' ∧ Turn e ss token b β m b' m' :=
  ⟨b, (h.bond _ hne).trans hb,
    .of_same rfl rfl ((h.batch _ hne).trans hβ) rfl (h.reserve _ hne) hss⟩

/-- A turn of a bond is one also among what leaves the bond alone, before it and after it. -/
theorem Turn.frame (h : Turn e ss token b β m₁ b' m₂)
    (hbefore : ∀ d, m₁.balance (reserveAccountFor token) d =
      m.balance (reserveAccountFor token) d)
    (hbatch : Table.get? m'.store.batches token = Table.get? m₂.store.batches token)
    (hafter : ∀ d, m'.balance (reserveAccountFor token) d =
      m₂.balance (reserveAccountFor token) d)
    (hss : ∀ s, s.token = token → (s ∈ ss' ↔ s ∈ ss)) : Turn e ss' token b β m b' m' := by
  cases h with
  | stays hlive hphase => exact .stays hlive hphase
  | opens hhatch hclose hopened hsells hend =>
      obtain ⟨s, hs, htoken, hphase⟩ := hclose
      exact .opens hhatch ⟨s, (hss s htoken).2 hs, htoken, hphase⟩ hopened hsells hend
  | settles hopened hpays hsettled => exact .settles hopened hpays hsettled
  | rests hsettled h =>
      exact .rests hsettled {
        phase := h.phase, supply_le := h.supply_le, batch := hbatch ▸ h.batch
        reported := fun s hs htoken => h.reported s ((hss s htoken).1 hs) htoken
        unchanged := fun hnone => by
          obtain ⟨hsupply, hreserve⟩ := h.unchanged hnone
          exact ⟨hsupply, fun d => (hafter d).trans ((hreserve d).trans (hbefore d))⟩ }

/-! ### Cycles -/

theorem elapseCycle_turn (hsep : cfg.Separate) (h : Sound cfg bonded fills m)
    (hb : Table.get? m.store.bonds token = some b)
    (hβ : Table.get? m.store.batches token = some β) {s : Option Settlement}
    (hs : elapseCycle cfg token m = .ok s m') :
    (∀ s' ∈ s, s'.token = token) ∧
      ∃ b', Table.get? m'.store.bonds token = some b' ∧ Turn e s.toList token b β m b' m' := by
  cases s with
  | none =>
      refine ⟨fun _ hs' => (by cases hs'), ?_⟩
      rcases (elapseCycle_sat_of_close hb hβ fun _ => Action.Sat.trivial _ _).of_ok hs with
        ⟨-, -, rfl⟩ | ⟨-, _, hsome, -⟩
      · exact ⟨b, hb, .of_same rfl rfl (get?_withBatch ..) rfl (fun _ => rfl)
          (List.forall_mem_nil _)⟩
      · cases hsome
  | some s =>
      obtain ⟨-, hclosed⟩ := elapseCycle_closed hsep h hb hβ hs
      refine ⟨fun s' hs' => Option.some.inj hs' ▸ hclosed.token_eq, ?_⟩
      by_cases hsettled : b.phase = .settled
      · obtain ⟨b', hb', hrested⟩ := hclosed.rested (h.countDown hb hβ _) hb (get?_withBatch ..)
          hsettled
        exact ⟨b', hb', .rests hsettled { hrested with }⟩
      · obtain ⟨supply, r, b', hmatured, hb', -⟩ := hclosed.bond
        refine ⟨b', hb', ?_⟩
        generalize hphase : s.newPhase = phase at hmatured
        cases hmatured with
        | same => exact .stays hsettled rfl
        | opened hhatch hlimit =>
            simp only [Bond.hatchLimit, Result.bind_eq_ok] at hlimit
            obtain ⟨s0, hs0, hend⟩ := hlimit
            exact .opens (Bond.inHatch_phase (b := b) hhatch)
              ⟨s, List.mem_singleton_self s, hclosed.token_eq, hphase⟩ rfl rfl
              ⟨s0, hs0, (Except.ok.inj hend).symm⟩

/-- What a cycle of one bond does: to that bond it gives a turn, all others it leaves alone. -/
structure Cycled (cfg : Config) (bonded : Denom → Prop) (e : Event) (token : Denom) (m : Market)
    (s : Option Settlement) (m' : Market) : Prop where
  sound : ∃ fills, Sound cfg bonded fills m'
  apart : Apart token m m'
  tokens : ∀ s' ∈ s, s'.token = token
  turn : ∀ b β, Table.get? m.store.bonds token = some b →
    Table.get? m.store.batches token = some β →
    ∃ b', Table.get? m'.store.bonds token = some b' ∧ Turn e s.toList token b β m b' m'

theorem elapseCycle_cycled (hsep : cfg.Separate) (h : Sound cfg bonded fills m) (e : Event)
    (token : Denom) :
    (elapseCycle cfg token).Sat m (Cycled cfg bonded e token m) fun _ _ => True := by
  apply (Action.Sat.trivial _ _).recall.imp
  intro s m' hrun
  obtain ⟨b, hb⟩ := exists_bond_of_elapseCycle hrun.1
  obtain ⟨-, β, hβ, -⟩ := h.kept.held token b hb
  obtain ⟨hsound, hapart, -⟩ := (elapseCycle_sat_of_bond hsep h hb hβ).of_ok hrun.1
  exact {
    sound := ⟨_, hsound⟩, apart := hapart
    tokens := (elapseCycle_turn (e := e) hsep h hb hβ hrun.1).1
    turn := fun b' β' hb' hβ' => (elapseCycle_turn hsep h hb' hβ' hrun.1).2 }

theorem Cycled.tokens_ne {s : Option Settlement} (h : Cycled cfg bonded e t m s m')
    (hne : token ≠ t) : ∀ s' ∈ s.toList, s'.token ≠ token := by
  intro s' hs'
  rw [h.tokens s' (Option.mem_toList.1 hs')]
  exact Ne.symm hne

theorem Cycled.turned {s : Option Settlement} (h : Cycled cfg bonded e t m s m') :
    Turned e s.toList m m' where
  turn u b β hb hβ := by
    by_cases hu : u = t
    · subst hu
      exact h.turn b β hb hβ
    · exact h.apart.turn hu hb hβ (h.tokens_ne hu)
  new u b' hb hb' := by
    cases hb'.symm.trans ((Table.get?_eq_none_congr h.apart.keys).2 hb)

/-- When the cycles of some bonds are through and those of `tokens` are left: a bond whose cycle is
left is as it was, and every other one has taken its turn. -/
structure EndingCycle (cfg : Config) (bonded : Denom → Prop) (e : Event) (m : Market)
    (tokens : List Denom) (ss : List Settlement) (m' : Market) : Prop where
  sound : ∃ fills, Sound cfg bonded fills m'
  distinct : tokens.Nodup
  keys : Table.keys m'.store.bonds = Table.keys m.store.bonds
  left : ∀ t ∈ tokens, Table.get? m'.store.bonds t = Table.get? m.store.bonds t ∧
    Table.get? m'.store.batches t = Table.get? m.store.batches t ∧
    (∀ d, m'.balance (reserveAccountFor t) d = m.balance (reserveAccountFor t) d) ∧
    ∀ s ∈ ss, s.token ≠ t
  through : ∀ t ∉ tokens, ∀ b β, Table.get? m.store.bonds t = some b →
    Table.get? m.store.batches t = some β →
    ∃ b', Table.get? m'.store.bonds t = some b' ∧ Turn e ss t b β m b' m'

theorem EndingCycle.step {tokens : List Denom}
    (h : EndingCycle cfg bonded e m (token :: tokens) ss m₁) {s : Option Settlement}
    (hs : Cycled cfg bonded e token m₁ s m') :
    EndingCycle cfg bonded e m tokens (ss ++ s.toList) m' := by
  obtain ⟨hnot, hdistinct⟩ := List.nodup_cons.1 h.distinct
  refine ⟨hs.sound, hdistinct, hs.apart.keys.trans h.keys, fun t ht => ?_,
    fun t ht b β hb hβ => ?_⟩
  · have hne : t ≠ token := fun heq => hnot (heq ▸ ht)
    obtain ⟨hbond, hbatch, hreserve, hss⟩ := h.left t (List.mem_cons_of_mem _ ht)
    refine ⟨(hs.apart.bond t hne).trans hbond, (hs.apart.batch t hne).trans hbatch,
      fun d => (hs.apart.reserve t hne d).trans (hreserve d), fun s' hs' => ?_⟩
    exact (List.mem_append.1 hs').elim (hss s') (hs.tokens_ne hne s')
  · by_cases htoken : t = token
    · -- The bond takes its turn now; nothing has been reported of it so far.
      subst htoken
      obtain ⟨hbond, hbatch, hreserve, hss⟩ := h.left t List.mem_cons_self
      obtain ⟨b', hb', hturn⟩ := hs.turn b β (hbond.trans hb) (hbatch.trans hβ)
      refine ⟨b', hb', hturn.frame hreserve rfl (fun _ => rfl) fun s' hs' => ?_⟩
      rw [List.mem_append, or_iff_right fun hmem => hss s' hmem hs']
    · -- The bond has taken its turn before.
      obtain ⟨b', hb', hturn⟩ := h.through t (by simp [htoken, ht]) b β hb hβ
      refine ⟨b', (hs.apart.bond t htoken).trans hb', hturn.frame (fun _ => rfl)
        (hs.apart.batch t htoken) (hs.apart.reserve t htoken) fun s' hs' => ?_⟩
      rw [List.mem_append, or_iff_left fun hmem => hs.tokens_ne htoken s' hmem hs']

theorem endCycle_turned (hsep : cfg.Separate) (h : Sound cfg bonded fills m) (e : Event) :
    (endCycle cfg).Sat m (fun ss m' => Turned e ss m m') fun _ _ => True := by
  have hmem (t : Denom) : t ∈ m.store.tokens ↔ t ∈ Table.keys m.store.bonds := mem_sortedTexts
  have hstart : EndingCycle cfg bonded e m m.store.tokens [] m :=
    ⟨⟨fills, h⟩, (sortedTexts_perm _).nodup_iff.2 h.kept.distinct, rfl,
      fun _ _ => ⟨rfl, rfl, fun _ => rfl, List.forall_mem_nil _⟩,
      fun t ht b β hb _ => absurd ((hmem t).2 (Table.mem_keys_of_get? hb)) ht⟩
  rw [endCycle, Action.sat_bind, Action.sat_get]
  refine (Action.sat_gather (I := EndingCycle cfg bonded e m) (fun token tokens ss m₁ hI => ?_) _
    hstart).imp fun ss m' hend => ?_
  · obtain ⟨_, hsound⟩ := hI.sound
    exact (elapseCycle_cycled hsep hsound e token).imp fun s m₂ hs => hI.step hs
  · refine ⟨fun t => hend.through t List.not_mem_nil, fun t b' hb hb' => ?_⟩
    cases hb'.symm.trans ((Table.get?_eq_none_congr hend.keys).2 hb)

/-! ### Requests -/

theorem Worked.turned {R : Bond → Bond → Prop} (h : Worked token R m m')
    (hR : ∀ b β b', Table.get? m.store.batches token = some β → R b b' →
      Turn e [] token b β m b' m') : Turned e [] m m' where
  turn u b β hb hβ := by
    by_cases hu : u = token
    · subst hu
      obtain ⟨b₁, b', hb₁, hb', hRb⟩ := h.bond
      obtain rfl := Option.some.inj (hb₁.symm.trans hb)
      exact ⟨b', hb', hR _ β b' hβ hRb⟩
    · exact h.apart.turn hu hb hβ (List.forall_mem_nil _)
  new u b' hb hb' := by
    cases hb'.symm.trans ((Table.get?_eq_none_congr h.apart.keys).2 hb)

theorem Worked.turned_of_traded (h : Worked token Bond.Traded m m') : Turned e [] m m' :=
  h.turned fun _ _ _ _ htraded => .stays htraded.1 htraded.2

theorem Created.turned {r : CreateBond} (h : Created r m m') : Turned e [] m m' := by
  obtain ⟨b, blocks, hfresh, rfl⟩ := h.market
  refine ⟨fun t b₁ β hb hβ => ?_, fun t b' hb hb' => ?_⟩
  · have hne : r.token ≠ t := by
      rintro rfl
      cases h.new.symm.trans hb
    exact ⟨b₁, (Table.get?_set_of_ne _ hne _).trans hb, .of_same rfl rfl
      ((Table.get?_set_of_ne _ hne _).trans hβ) rfl (fun _ => rfl) (List.forall_mem_nil _)⟩
  · by_cases ht : r.token = t
    · subst ht
      obtain rfl := Option.some.inj ((get?_withBond ..).symm.trans hb')
      exact hfresh.phase
    · cases hb.symm.trans ((Table.get?_set_of_ne _ ht _).symm.trans hb')

theorem handle_turned (hsep : cfg.Separate) (h : Sound cfg bonded fills m) {r : Request}
    (hr : r.Clean cfg) :
    (handle cfg r).Sat m (fun answer m' => Turned (.request r) answer.reports m m')
      fun _ _ => True := by
  -- Orders are taken in alike, and no settlement is reported.
  have htraded {α : Type} {act : Action α} {f : α → Response} {token : Denom}
      (hf : ∀ a, (f a).reports = [])
      (hact : act.Sat m
        (fun _ m' => Sound cfg bonded fills m' ∧ Worked token Bond.Traded m m') (Refused m)) :
      (f <$> act).Sat m (fun answer m' => Turned (.request r) answer.reports m m')
        fun _ _ => True := by
    rw [Action.sat_map]
    refine hact.mono (fun a m' hs => ?_) fun _ _ _ => trivial
    rw [hf]
    exact hs.2.turned_of_traded
  cases r with
  | create r =>
      simp only [handle, Action.sat_map]
      exact (createBond_sat hsep h r hr.1 hr.2).mono (fun _ _ hs => hs.2.turned)
        fun _ _ _ => trivial
  | edit r =>
      simp only [handle, Action.sat_map]
      refine (editBond_sat h r).mono (fun _ m' hs => ?_) fun _ _ _ => trivial
      obtain ⟨-, hworked, hbatches, hledger⟩ := hs
      refine hworked.turned fun b β b' hβ hedited => ?_
      exact .of_same hedited.1 hedited.2 (hbatches ▸ hβ) rfl (fun d => by rw [balance, hledger])
        (List.forall_mem_nil _)
  | buy r => exact htraded (fun _ => rfl) (submitBuy_sat hsep h r hr)
  | sell r => exact htraded (fun _ => rfl) (submitSell_sat hsep h r hr)
  | swap r => exact htraded (fun _ => rfl) (submitSwap_sat hsep h r hr)
  | pay r =>
      simp only [handle, Action.sat_map]
      refine (payOutcome_sat hsep h r hr).mono (fun _ m' hs => ?_) fun _ _ _ => trivial
      obtain ⟨-, b₀, hpaid⟩ := hs
      exact hpaid.worked.turned fun b β b' _ hpaid => .settles hpaid.1 rfl hpaid.2
  | withdraw r =>
      simp only [handle, Action.sat_map]
      refine (withdrawShare_sat hsep h r hr).mono (fun _ m' hs => ?_) fun _ _ _ => trivial
      obtain ⟨-, b₀, hwithdrew⟩ := hs
      refine hwithdrew.worked.turned fun b β b' hβ hwithdrawn => ?_
      obtain ⟨hsettled, hsettled', hle⟩ := hwithdrawn
      exact .rests hsettled ⟨hsettled', hle, ⟨β, hwithdrew.batches ▸ hβ, List.Subset.refl _⟩,
        List.forall_mem_nil _, fun hnone => absurd rfl (hnone _ (List.mem_singleton_self _))⟩
  | cycle token =>
      simp only [handle, Action.sat_map]
      exact (elapseCycle_cycled hsep h _ token).imp fun _ _ hs => hs.turned
  | endCycle =>
      simp only [handle, Action.sat_map]
      exact endCycle_turned hsep h _

theorem Turned.of_store (hstore : m'.store = m.store)
    (hreserve : ∀ t d, m'.balance (reserveAccountFor t) d = m.balance (reserveAccountFor t) d) :
    Turned e [] m m' where
  turn t b β hb hβ := ⟨b, hstore ▸ hb, .of_same rfl rfl (hstore ▸ hβ) rfl (hreserve t)
    (List.forall_mem_nil _)⟩
  new t b' hb hb' := by cases hb.symm.trans (hstore ▸ hb')

end Market

/-! ### Runs -/

namespace Event

open Market

variable {cfg : Config} {bonded : Denom → Prop} {fills : Denom → Nat} {m m' : Market}

theorem apply_turned (hsep : cfg.Separate) (h : Sound cfg bonded fills m) {log log' : List Response}
    {e : Event} (he : e.Clean cfg bonded) (hm : e.apply cfg log m = some (log', m')) :
    ∃ answers, log' = log ++ answers ∧ Turned e (settlementsIn answers) m m' := by
  rcases h.apply_cases hsep he hm with ⟨r, answer, rfl, hr, hrun, rfl⟩ | ⟨rfl, rfl⟩ |
    ⟨c, ledger, -, hc, hrun, rfl, rfl⟩
  · refine ⟨[answer], rfl, ?_⟩
    simpa [settlementsIn] using (handle_turned hsep h hr).of_ok hrun
  · exact ⟨[], (List.append_nil _).symm, .of_store rfl fun _ _ => rfl⟩
  · obtain ⟨hpost, -, hreserve, -⟩ := Posted.clean h.kept.solvent hc hrun
    refine ⟨[], (List.append_nil _).symm, .of_store rfl fun t d => ?_⟩
    rw [balance, hpost.balance, hreserve, add_zero]

end Event

variable {cfg : Config} {bonded : Denom → Prop} {log log' : List Response} {m m' : Market}
  {es : List Event}

theorem Leads.rested (h : Leads cfg bonded log m es log' m') (hrun : CleanRun cfg bonded log m) :
    ∃ answers, log' = log ++ answers ∧ ∀ t b β, Table.get? m.store.bonds t = some b →
      Table.get? m.store.batches t = some β → b.phase = .settled →
      ∃ b', Table.get? m'.store.bonds t = some b' ∧
        Market.Rested es (settlementsIn answers) t b β m b' m' := by
  induction h with
  | nil =>
      refine ⟨[], (List.append_nil _).symm, fun t b β hb hβ hsettled => ⟨b, hb, hsettled, le_rfl,
        ⟨β, hβ, List.Subset.refl _⟩, List.forall_mem_nil _, fun _ => ⟨rfl, fun _ => rfl⟩⟩⟩
  | snoc hleads he hm _ ih =>
      obtain ⟨answers, rfl, hrested⟩ := ih
      obtain ⟨hsep, hsound⟩ := (hleads.cleanRun hrun).sound
      obtain ⟨answers', rfl, hturned⟩ := Event.apply_turned hsep hsound he hm
      refine ⟨answers ++ answers', (List.append_assoc ..), fun t b β hb hβ hsettled => ?_⟩
      obtain ⟨b₁, hb₁, hrest⟩ := hrested t b β hb hβ hsettled
      obtain ⟨β₁, hβ₁, -⟩ := hrest.batch
      obtain ⟨b', hb', hturn⟩ := hturned.turn t b₁ β₁ hb₁ hβ₁
      refine ⟨b', hb', ?_⟩
      rw [settlementsIn, List.flatMap_append]
      exact hrest.trans hβ₁ (hturn.rested hrest.phase)

/-- In every run only augmented bonds are in a hatch, where sells are not let in and neither the
batch nor the one before has any, and a settled bond has no open orders. Whatever happens next, each
bond stays in its phase, is opened by a close that leaves its supply at the end of its hatch, or is
settled by its outcome payment. A settled bond is at rest whatever follows: it stays settled, no
close fills or newly cancels an order of it, its supply never grows, and only withdrawals change its
supply and its reserve. -/
theorem CleanRun.phases_kept (h : CleanRun cfg bonded log m) :
    (∀ t b, Table.get? m.store.bonds t = some b → ∃ β, Table.get? m.store.batches t = some β ∧
      b.reserveAddress = reserveAccountFor t ∧
      (b.phase = .hatch → b.isAugmented = true ∧ b.allowSells = false ∧ β.sells = [] ∧
        ∀ γ, Table.get? m.store.lastBatches t = some γ → γ.sells = []) ∧
      (b.phase = .settled → β.hasOpenOrders = false)) ∧
    (∀ e log' m', e.Clean cfg bonded → e.apply cfg log m = some (log', m') →
      ∃ answers, log' = log ++ answers ∧ Market.Turned e (settlementsIn answers) m m') ∧
    ∀ es log' m', Leads cfg bonded log m es log' m' →
      ∃ answers, log' = log ++ answers ∧ ∀ t b β, Table.get? m.store.bonds t = some b →
        Table.get? m.store.batches t = some β → b.phase = .settled →
        ∃ b', Table.get? m'.store.bonds t = some b' ∧
          Market.Rested es (settlementsIn answers) t b β m b' m' := by
  obtain ⟨hsep, hsound⟩ := h.sound
  refine ⟨fun t b hb => ?_, fun e log' m' he hm => Event.apply_turned hsep hsound he hm,
    fun es log' m' hleads => hleads.rested h⟩
  obtain ⟨-, β, hβ, hheld⟩ := hsound.kept.held t b hb
  refine ⟨β, hβ, hheld.formed.address, fun hphase => ?_,
    fun hsettled => hsound.hasOpenOrders_eq_false hb hβ hsettled⟩
  have haugmented := hheld.family hphase
  have hhatch : b.inHatch = true := by simp [Bond.inHatch, haugmented, hphase]
  refine ⟨haugmented, (hheld.hatch hhatch).1, hheld.sells_eq_nil hhatch, ?_⟩
  rw [← hheld.formed.token_eq]
  exact (hsound.hatching t b β hb hβ hhatch).unsold

/-- A bond whose hatch ends at five tokens, with a buy of the five, and somebody who can make its
outcome payment of three units. -/
def lifeEvents : List Event :=
  [.post (.mint "alice" [("res", some 5)]),
    .post (.mint "bob" [("res", some 3)]),
    .request (.create {
      token := "abc"
      name := "n"
      description := "d"
      creator := "z"
      functionType := "augmented_function"
      parameters := [("d0", Dec.ofInt 5), ("p0", Dec.one), ("theta", ⟨400000000000000000⟩),
        ("kappa", Dec.one)]
      reserveTokens := ["res"]
      txFee := Dec.zero
      exitFee := Dec.zero
      feeAddress := "fees"
      maxSupply := ⟨"abc", 1000⟩
      signers := ["z"]
      outcomePayment := [("res", some 3)] }),
    .request (.buy {
      buyer := "alice", amount := ⟨"abc", 5⟩, maxPrices := [("res", some 5)] })]

/-- The bond is opened by the close that fills the buy. After its outcome payment a sell is turned
down and a batch closed, which leaves the five tokens and the six units in its reserve. -/
theorem phases_kept_five :
    (∃ log m log' m' b', CleanRun {} (· ∈ ["abc"]) log m ∧
      (Event.request (.cycle "abc")).apply {} log m = some (log', m') ∧
      Table.get? m'.store.bonds "abc" = some b' ∧ b'.phase = .opened ∧ b'.allowSells = true ∧
      ∃ s0, b'.parameters.value "S0" = .ok s0 ∧ b'.supply = s0.ceilInt) ∧
    ∃ log m log' m' b', CleanRun {} (· ∈ ["abc"]) log m ∧
      Leads {} (· ∈ ["abc"]) log m [.request (.sell { seller := "alice", amount := ⟨"abc", 1⟩ }),
        .request (.cycle "abc")] log' m' ∧
      Table.get? m'.store.bonds "abc" = some b' ∧ b'.phase = .settled ∧ b'.supply = 5 ∧
      m'.balance (reserveAccountFor "abc") "res" = 6 := by
  constructor
  · have hplay : (playClean {} ["abc"] [] {} lifeEvents).any (fun s =>
        (Table.get? s.2.store.bonds "abc").any (fun b => b.phase = .hatch) ∧
        (Table.get? s.2.store.batches "abc").isSome ∧
        ((Event.request (.cycle "abc")).apply {} s.1 s.2).any fun s' =>
          (Table.get? s'.2.store.bonds "abc").any fun b => b.phase = .opened) = true := by
      decide +kernel
    obtain ⟨⟨log, m⟩, hplay, hcheck⟩ := (Option.any_eq_true _ _).1 hplay
    have hrun := (CleanRun.start Config.separate_default).of_playClean hplay
    obtain ⟨hhatch, hbatch, hcycle⟩ := of_decide_eq_true hcheck
    obtain ⟨b, hb, hhatch⟩ := (Option.any_eq_true _ _).1 hhatch
    obtain ⟨β, hβ⟩ := Option.isSome_iff_exists.1 hbatch
    obtain ⟨⟨log', m'⟩, hm, hopened⟩ := (Option.any_eq_true _ _).1 hcycle
    obtain ⟨b₁, hb₁, hopened⟩ := (Option.any_eq_true _ _).1 hopened
    obtain ⟨answers, -, hturned⟩ :=
      hrun.phases_kept.2.1 (.request (.cycle "abc")) log' m' trivial hm
    obtain ⟨b', hb', hturn⟩ := hturned.turn "abc" b β hb hβ
    obtain rfl : b₁ = b' := Option.some.inj (hb₁.symm.trans hb')
    have hhatch : b.phase = .hatch := of_decide_eq_true hhatch
    have hopened : b₁.phase = .opened := of_decide_eq_true hopened
    cases hturn with
    | opens _ _ _ hsells hend => exact ⟨log, m, log', m', b₁, hrun, hm, hb₁, hopened, hsells, hend⟩
    | stays _ hphase => cases hopened.symm.trans (hphase.trans hhatch)
    | settles hphase => cases hphase.symm.trans hhatch
    | rests hphase => cases hphase.symm.trans hhatch
  · have hplay : (playClean {} ["abc"] [] {} (lifeEvents ++ [.request (.cycle "abc"),
        .request (.pay { sender := "bob", bondToken := "abc" })])).any (fun s =>
        (Table.get? s.2.store.bonds "abc").any (fun b => b.phase = .settled ∧ b.supply = 5) ∧
        (Table.get? s.2.store.batches "abc").isSome ∧
        s.2.balance (reserveAccountFor "abc") "res" = 6 ∧
        (playClean {} ["abc"] s.1 s.2 [.request (.sell { seller := "alice", amount := ⟨"abc", 1⟩ }),
          .request (.cycle "abc")]).isSome) = true := by
      decide +kernel
    obtain ⟨⟨log, m⟩, hplay, hcheck⟩ := (Option.any_eq_true _ _).1 hplay
    have hrun := (CleanRun.start Config.separate_default).of_playClean hplay
    obtain ⟨hbond, hbatch, hsix, hlater⟩ := of_decide_eq_true hcheck
    obtain ⟨b, hb, hbond⟩ := (Option.any_eq_true _ _).1 hbond
    obtain ⟨hsettled, hfive⟩ := of_decide_eq_true hbond
    obtain ⟨β, hβ⟩ := Option.isSome_iff_exists.1 hbatch
    obtain ⟨⟨log', m'⟩, hlater⟩ := Option.isSome_iff_exists.1 hlater
    have hleads := Leads.of_playClean hlater
    obtain ⟨answers, -, hrest⟩ := hrun.phases_kept.2.2 _ log' m' hleads
    obtain ⟨b', hb', hrested⟩ := hrest "abc" b β hb hβ hsettled
    obtain ⟨hsupply, hreserve⟩ := hrested.unchanged (by simp [Event.Withdraws])
    exact ⟨log, m, log', m', b', hrun, hleads, hb', hrested.phase, hsupply.trans hfive,
      (hreserve "res").trans hsix⟩

end BondMarket
