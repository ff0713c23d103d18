import BondMarket.Proofs.Displacement
import BondMarket.Proofs.Run

/-!
Bonds are independent: the order in which their batches are closed in a cycle is of no account.

All closings share one ledger, with one escrow account, one account that tokens are made in, and
the accounts of users; and the token of one bond may be the reserve of another. A closing of one
bond displaces the market for every other one, by what it moves between those accounts. As a
closing does not see a displacement, and as the shared accounts of a sound market are never found
wanting, two closings that follow each other can change places.
-/

namespace BondMarket

theorem Error.Wanting.initial {e : Error} (h : e.Wanting) :
    e.initial = some 's' ∨ e.initial = some 'd' ∨ e.initial = some 'r' := by
  obtain ⟨purpose, hshared, hfailed⟩ := h
  obtain ⟨_, rfl⟩ := hfailed.eq
  cases hshared <;> simp [Error.initial, Purpose.text, toString]

namespace Market

variable {cfg : Config} {bonded : Denom → Prop} {m m' n k : Market} {t u : Denom}

/-- What stops a settlement is never a shared account that is found wanting. -/
theorem Stops.not_wanting {b : Bond} {short : Prop} {e : Error} (h : Stops b short e) :
    ¬ e.Wanting := by
  intro hwanting
  have hinitial : e.initial = some 'b' ∨ e.initial = some 'I' ∨ e.initial = some 'w' := by
    cases h with
    | buy h => exact h.initial.imp_right .inl
    | sell _ h => exact .inr (.inr (Purpose.initial_of_withdrawReserve h))
  have hother := hwanting.initial
  generalize e.initial = i at hinitial hother
  rcases hinitial with rfl | rfl | rfl <;> simp at hother

/-! ### Markets of the same content -/

/-- Two markets say the same of every bond and of every account. Their tables may have been entered
in different orders. -/
structure Same (m n : Market) : Prop where
  refusals : n.refusals = m.refusals
  keys : Table.keys n.store.bonds = Table.keys m.store.bonds
  bond : ∀ t, Table.get? n.store.bonds t = Table.get? m.store.bonds t
  batch : ∀ t, Table.get? n.store.batches t = Table.get? m.store.batches t
  last : ∀ t, Table.get? n.store.lastBatches t = Table.get? m.store.lastBatches t
  balance : ∀ a d, n.balance a d = m.balance a d
  total : ∀ d, n.ledger.totalSupply d = m.ledger.totalSupply d

theorem Same.refl (m : Market) : Same m m :=
  ⟨rfl, rfl, fun _ => rfl, fun _ => rfl, fun _ => rfl, fun _ _ => rfl, fun _ => rfl⟩

theorem Same.trans (h : Same m n) (h' : Same n k) : Same m k where
  refusals := h'.refusals.trans h.refusals
  keys := h'.keys.trans h.keys
  bond t := (h'.bond t).trans (h.bond t)
  batch t := (h'.batch t).trans (h.batch t)
  last t := (h'.last t).trans (h.last t)
  balance a d := (h'.balance a d).trans (h.balance a d)
  total d := (h'.total d).trans (h.total d)

def shift (m n : Market) (a : Account) (d : Denom) : Int := n.balance a d - m.balance a d

def raise (m n : Market) (d : Denom) : Int := n.ledger.totalSupply d - m.ledger.totalSupply d

theorem displaced_ledger (m n : Market) : m.ledger.Displaced (shift m n) (raise m n) n.ledger where
  balance _ _ := (add_sub_cancel ..).symm
  total _ := (add_sub_cancel ..).symm

theorem Same.displaced (h : Same m n) (t : Denom) : Displaced t (shift m n) (raise m n) m n where
  refusals := h.refusals
  bond := h.bond t
  batch := h.batch t
  last := h.last t
  ledger := displaced_ledger m n
  still _ _ d := sub_eq_zero.2 (h.balance _ d)

/-- What works on one bond displaces the market for every other one. -/
theorem Apart.displaced (h : Apart u m m') (hs : ∃ fills, Sound cfg bonded fills m) (ht : t ≠ u) :
    Displaced t (shift m m') (raise m m') m m' where
  refusals := h.refusals
  bond := h.bond t ht
  batch := h.batch t ht
  last := h.last t ht
  ledger := displaced_ledger m m'
  still b hb d := by
    obtain ⟨fills, hs⟩ := hs
    obtain ⟨-, β, -, hheld⟩ := hs.kept.held t b hb
    rw [hheld.formed.address]
    exact sub_eq_zero.2 (h.reserve t ht d)

theorem Displaced.symm (h : Displaced t (shift m n) (raise m n) m n) :
    Displaced t (shift n m) (raise n m) n m where
  refusals := h.refusals.symm
  bond := h.bond.symm
  batch := h.batch.symm
  last := h.last.symm
  ledger := displaced_ledger n m
  still b hb d := by
    have hstill := h.still b (h.bond ▸ hb) d
    exact sub_eq_zero.2 (sub_eq_zero.1 hstill).symm

/-! ### One cycle -/

/-- A cycle that comes out well does so in every sound market that is displaced. -/
theorem Displaced.elapseCycle {shift : Account → Denom → Int} {raise : Denom → Int}
    (h : Displaced t shift raise m n) (hsep : cfg.Separate)
    (hn : ∃ fills, Sound cfg bonded fills n) {s : Option Settlement}
    (hrun : elapseCycle cfg t m = .ok s m') :
    ∃ n', Market.elapseCycle cfg t n = .ok s n' ∧ Displaced t shift raise m' n' ∧ Apart t n n' ∧
      ∃ fills, Sound cfg bonded fills n' := by
  obtain ⟨fills, hn⟩ := hn
  obtain ⟨b, hb⟩ := exists_bond_of_elapseCycle hrun
  rw [← h.bond] at hb
  obtain ⟨-, β, hβ, -⟩ := hn.kept.held t b hb
  have hboth := (blind_elapseCycle m n h s m' hrun).and (elapseCycle_sat_of_bond hsep hn hb hβ)
  obtain ⟨_, n', hrun', ⟨rfl, hdisplaced⟩, hsound, hapart, -⟩ :=
    (hboth.mono (fun _ _ h => h) fun e _ he => he.2.1.not_wanting he.1).exists_ok
  exact ⟨n', hrun', hdisplaced, hapart, _, hsound⟩

theorem elapseCycle_apart (hsep : cfg.Separate) (hm : ∃ fills, Sound cfg bonded fills m)
    {s : Option Settlement} (hrun : elapseCycle cfg t m = .ok s m') :
    Apart t m m' ∧ ∃ fills, Sound cfg bonded fills m' := by
  obtain ⟨_, hrun', -, hapart, hm'⟩ := ((Same.refl m).displaced t).elapseCycle hsep hm hrun
  cases hrun.symm.trans hrun'
  exact ⟨hapart, hm'⟩

theorem Same.elapseCycle (h : Same m n) (hsep : cfg.Separate)
    (hm : ∃ fills, Sound cfg bonded fills m) (hn : ∃ fills, Sound cfg bonded fills n)
    {s : Option Settlement} (hrun : elapseCycle cfg t m = .ok s m') :
    ∃ n', Market.elapseCycle cfg t n = .ok s n' ∧ Same m' n' := by
  obtain ⟨hapart, -⟩ := elapseCycle_apart hsep hm hrun
  obtain ⟨n', hrun', hdisplaced, hapart', -⟩ := (h.displaced t).elapseCycle hsep hn hrun
  refine ⟨n', hrun', {
    refusals := hdisplaced.refusals
    keys := hapart'.keys.trans (h.keys.trans hapart.keys.symm)
    bond := fun u => ?_, batch := fun u => ?_, last := fun u => ?_
    balance := fun a d => ?_, total := fun d => ?_ }⟩
  · by_cases hu : u = t
    · exact hu ▸ hdisplaced.bond
    · rw [hapart'.bond u hu, h.bond, hapart.bond u hu]
  · by_cases hu : u = t
    · exact hu ▸ hdisplaced.batch
    · rw [hapart'.batch u hu, h.batch, hapart.batch u hu]
  · by_cases hu : u = t
    · exact hu ▸ hdisplaced.last
    · rw [hapart'.last u hu, h.last, hapart.last u hu]
  · show n'.ledger.balanceOf a d = _
    rw [hdisplaced.ledger.balance, shift, h.balance, sub_self, add_zero]
  · rw [hdisplaced.ledger.total, raise, h.total, sub_self, add_zero]

theorem elapseCycle_comm (hsep : cfg.Separate) (hm : ∃ fills, Sound cfg bonded fills m)
    (htu : t ≠ u) {s s' : Option Settlement} {m₁ m₂ : Market}
    (ht : elapseCycle cfg t m = .ok s m₁) (hu : elapseCycle cfg u m₁ = .ok s' m₂) :
    ∃ n₁ n₂, elapseCycle cfg u m = .ok s' n₁ ∧ elapseCycle cfg t n₁ = .ok s n₂ ∧ Same m₂ n₂ := by
  obtain ⟨hapart₁, hm₁⟩ := elapseCycle_apart hsep hm ht
  obtain ⟨hapart₂, -⟩ := elapseCycle_apart hsep hm₁ hu
  obtain ⟨n₁, hun, hdisplaced₁, hapartn₁, hn₁⟩ :=
    (hapart₁.displaced hm htu.symm).symm.elapseCycle hsep hm hu
  obtain ⟨n₂, htn, hdisplaced₂, hapartn₂, -⟩ :=
    (hapartn₁.displaced hm htu).elapseCycle hsep hn₁ ht
  -- The record of each bond is what its own cycle has made of it, the other one having left it.
  have hsame {α : Type} (view : Market → Denom → α) (happly₁ : ∀ v ≠ t, view m₁ v = view m v)
      (happly₂ : ∀ v ≠ u, view m₂ v = view m₁ v) (happlyn₁ : ∀ v ≠ u, view n₁ v = view m v)
      (happlyn₂ : ∀ v ≠ t, view n₂ v = view n₁ v) (hu : view n₁ u = view m₂ u)
      (ht : view n₂ t = view m₁ t) (v : Denom) : view n₂ v = view m₂ v := by
    by_cases hvt : v = t
    · rw [hvt, ht, happly₂ t htu]
    · rw [happlyn₂ v hvt]
      by_cases hvu : v = u
      · rw [hvu, hu]
      · rw [happlyn₁ v hvu, happly₂ v hvu, happly₁ v hvt]
  refine ⟨n₁, n₂, hun, htn, {
    refusals := by rw [hapartn₂.refusals, hdisplaced₁.refusals]
    keys := by rw [hapartn₂.keys, hapartn₁.keys, hapart₂.keys, hapart₁.keys]
    bond := hsame (fun m => Table.get? m.store.bonds) hapart₁.bond hapart₂.bond hapartn₁.bond
      hapartn₂.bond hdisplaced₁.bond hdisplaced₂.bond
    batch := hsame (fun m => Table.get? m.store.batches) hapart₁.batch hapart₂.batch
      hapartn₁.batch hapartn₂.batch hdisplaced₁.batch hdisplaced₂.batch
    last := hsame (fun m => Table.get? m.store.lastBatches) hapart₁.last hapart₂.last
      hapartn₁.last hapartn₂.last hdisplaced₁.last hdisplaced₂.last
    balance := fun a d => ?_, total := fun d => ?_ }⟩
  · have h₁ := hdisplaced₁.ledger.balance a d
    have h₂ := hdisplaced₂.ledger.balance a d
    simp only [shift, balance] at h₁ h₂ ⊢
    omega
  · have h₁ := hdisplaced₁.ledger.total d
    have h₂ := hdisplaced₂.ledger.total d
    simp only [raise] at h₁ h₂
    omega

/-! ### Cycles of several bonds -/

/-- Counts down a block for each bond of a list, in the order of the list, and says what came of
it. -/
def elapseEach (cfg : Config) (ts : List Denom) : Action (List (Denom × Option Settlement)) :=
  gather (fun t => (fun s => some (t, s)) <$> elapseCycle cfg t) ts

theorem elapseEach_cons_eq_ok {ts : List Denom} {ss : List (Denom × Option Settlement)} :
    elapseEach cfg (t :: ts) m = .ok ss m' ↔ ∃ s m₁ ss', elapseCycle cfg t m = .ok s m₁ ∧
      elapseEach cfg ts m₁ = .ok ss' m' ∧ ss = (t, s) :: ss' := by
  simp only [elapseEach, gather, Action.bind_eq_ok, Action.map_eq_ok, Action.pure_eq_ok]
  constructor
  · rintro ⟨_, m₁, ⟨s, hs, rfl⟩, ss', _, hss, rfl, rfl⟩
    exact ⟨s, m₁, ss', hs, hss, rfl⟩
  · rintro ⟨s, m₁, ss', hs, hss, rfl⟩
    exact ⟨_, m₁, ⟨s, hs, rfl⟩, ss', m', hss, rfl, rfl⟩

theorem Same.elapseEach_cons {ts us : List Denom} {ss : List (Denom × Option Settlement)}
    (hsep : cfg.Separate) (h : Same m n) (hm : ∃ fills, Sound cfg bonded fills m)
    (hn : ∃ fills, Sound cfg bonded fills n)
    (hrest : ∀ {m n ss}, Same m n → (∃ fills, Sound cfg bonded fills m) →
      (∃ fills, Sound cfg bonded fills n) → elapseEach cfg ts m = .ok ss m' →
      ∃ ss' n', elapseEach cfg us n = .ok ss' n' ∧ ss'.Perm ss ∧ Same m' n')
    (hrun : elapseEach cfg (t :: ts) m = .ok ss m') :
    ∃ ss' n', elapseEach cfg (t :: us) n = .ok ss' n' ∧ ss'.Perm ss ∧ Same m' n' := by
  obtain ⟨s, m₁, ss₁, hs, hss₁, rfl⟩ := elapseEach_cons_eq_ok.1 hrun
  obtain ⟨n₁, hs', h₁⟩ := h.elapseCycle hsep hm hn hs
  obtain ⟨ss₂, n', hss₂, hperm, h'⟩ :=
    hrest h₁ (elapseCycle_apart hsep hm hs).2 (elapseCycle_apart hsep hn hs').2 hss₁
  exact ⟨_, n', elapseEach_cons_eq_ok.2 ⟨s, n₁, ss₂, hs', hss₂, rfl⟩, hperm.cons _, h'⟩

theorem Same.elapseEach_congr (hsep : cfg.Separate) {ts : List Denom} (h : Same m n)
    (hm : ∃ fills, Sound cfg bonded fills m) (hn : ∃ fills, Sound cfg bonded fills n)
    {ss : List (Denom × Option Settlement)} (hrun : elapseEach cfg ts m = .ok ss m') :
    ∃ ss' n', elapseEach cfg ts n = .ok ss' n' ∧ ss'.Perm ss ∧ Same m' n' := by
  induction ts generalizing m n ss with
  | nil =>
      obtain ⟨rfl, rfl⟩ := Action.pure_eq_ok.1 hrun
      exact ⟨[], n, rfl, .refl _, h⟩
  | cons t ts ih => exact h.elapseEach_cons hsep hm hn (fun h hm hn => ih h hm hn) hrun

/-- The same cycles in another order come out as well, with the same answer for each bond, and lead
to a market of the same content. -/
theorem Same.elapseEach_perm (hsep : cfg.Separate) {ts us : List Denom} (hperm : ts.Perm us)
    (h : Same m n) (hm : ∃ fills, Sound cfg bonded fills m)
    (hn : ∃ fills, Sound cfg bonded fills n) {ss : List (Denom × Option Settlement)}
    (hrun : elapseEach cfg ts m = .ok ss m') :
    ∃ ss' n', elapseEach cfg us n = .ok ss' n' ∧ ss'.Perm ss ∧ Same m' n' := by
  induction hperm generalizing m n ss m' with
  | nil => exact h.elapseEach_congr hsep hm hn hrun
  | cons t _ ih => exact h.elapseEach_cons hsep hm hn (fun h hm hn => ih h hm hn) hrun
  | swap t u ts =>
      by_cases hut : u = t
      · subst hut
        exact h.elapseEach_congr hsep hm hn hrun
      · -- The first two cycles change places; those that follow are the same ones.
        obtain ⟨s, m₁, ss₁, hs, hss₁, rfl⟩ := elapseEach_cons_eq_ok.1 hrun
        obtain ⟨s', m₂, ss₂, hs', hss₂, rfl⟩ := elapseEach_cons_eq_ok.1 hss₁
        obtain ⟨k₁, k₂, hk₁, hk₂, hk⟩ := elapseCycle_comm hsep hm hut hs hs'
        have hm₂ := (elapseCycle_apart hsep (elapseCycle_apart hsep hm hs).2 hs').2
        have hk₂s := (elapseCycle_apart hsep (elapseCycle_apart hsep hm hk₁).2 hk₂).2
        obtain ⟨ss₃, k', hss₃, hperm, h₃⟩ := hk.elapseEach_congr hsep hm₂ hk₂s hss₂
        have hswapped : elapseEach cfg (t :: u :: ts) m = .ok ((t, s') :: (u, s) :: ss₃) k' :=
          elapseEach_cons_eq_ok.2 ⟨s', k₁, _, hk₁,
            elapseEach_cons_eq_ok.2 ⟨s, k₂, ss₃, hk₂, hss₃, rfl⟩, rfl⟩
        obtain ⟨ss₄, n', hss₄, hperm', h₄⟩ := h.elapseEach_congr hsep hm hn hswapped
        exact ⟨ss₄, n', hss₄, hperm'.trans ((List.Perm.swap ..).trans ((hperm.cons _).cons _)),
          h₃.trans h₄⟩
  | trans _ _ ih₁ ih₂ =>
      obtain ⟨ss₁, n₁, hrun₁, hperm₁, h₁⟩ := ih₁ h hm hn hrun
      obtain ⟨ss₂, n₂, hrun₂, hperm₂, h₂⟩ := ih₂ (.refl n) hn hn hrun₁
      exact ⟨ss₂, n₂, hrun₂, hperm₂.trans hperm₁, h₁.trans h₂⟩

end Market

/-- In every run, a cycle of one bond leaves the records, the batches and the reserve account of
every other bond as they are. If cycles of bonds that follow each other come out well, they do so in
every other order, with the same answer for each bond, and lead to the same store and to the same
balance of every account. -/
theorem CleanRun.cycles_order_free {cfg : Config} {bonded : Denom → Prop} {log : List Response}
    {m : Market} (h : CleanRun cfg bonded log m) :
    (∀ t s m', Market.elapseCycle cfg t m = .ok s m' → Market.Apart t m m') ∧
      ∀ ts us ss m', ts.Perm us → Market.elapseEach cfg ts m = .ok ss m' →
        ∃ ss' n', Market.elapseEach cfg us m = .ok ss' n' ∧ ss'.Perm ss ∧ Market.Same m' n' := by
  obtain ⟨hsep, hsound⟩ := h.sound
  refine ⟨fun t s m' hs => (Market.elapseCycle_apart hsep ⟨_, hsound⟩ hs).1, ?_⟩
  intro ts us ss m' hperm hrun
  exact (Market.Same.refl m).elapseEach_perm hsep hperm ⟨_, hsound⟩ ⟨_, hsound⟩ hrun

/-- Two bonds with a flat price of a tenth of a unit, where the token of the first is the reserve of
the second, and orders that wait for both: a buy and a sell of the first, a buy of the second. -/
def chainedEvents : List Event :=
  let bond (token reserve : Denom) : Event := .request (.create {
    token
    name := "n"
    description := "d"
    creator := "z"
    functionType := "power_function"
    parameters := [("m", Dec.zero), ("n", Dec.zero), ("c", ⟨100000000000000000⟩)]
    reserveTokens := [reserve]
    txFee := Dec.zero
    exitFee := Dec.zero
    feeAddress := "fees"
    maxSupply := ⟨token, 1000⟩
    signers := ["z"] })
  let buy (buyer : Account) (token reserve : Denom) (amount : Nat) : Event := .request (.buy {
    buyer, amount := ⟨token, amount⟩, maxPrices := [(reserve, some 2)] })
  [.post (.mint "alice" [("res", some 6)]), .post (.mint "bob" [("res", some 6)]),
    bond "abc" "res", bond "xyz" "abc",
    buy "alice" "abc" "res" 20, .request (.cycle "abc"),
    buy "alice" "xyz" "abc" 15, buy "bob" "abc" "res" 7,
    .request (.sell { seller := "alice", amount := ⟨"abc", 4⟩ })]

theorem cycles_order_free_chained :
    ∃ log m ss m' ss' n', CleanRun {} (· ∈ ["abc", "xyz"]) log m ∧
      (["abc", "xyz"] : List Denom).Perm ["xyz", "abc"] ∧
      Market.elapseEach {} ["abc", "xyz"] m = .ok ss m' ∧
      (ss.all fun s => s.2.any fun s => s.fills ≠ []) = true ∧
      Market.elapseEach {} ["xyz", "abc"] m = .ok ss' n' ∧ ss'.Perm ss ∧ Market.Same m' n' := by
  obtain ⟨log, m, hrun, hcheck⟩ := CleanRun.exists_of_playClean ["abc", "xyz"] chainedEvents
    (fun m => (Market.elapseEach {} ["abc", "xyz"]).Sat m
      (fun ss _ => (ss.all fun s => s.2.any fun s => s.fills ≠ []) = true) fun _ _ => False)
    (by decide +kernel)
  obtain ⟨ss, m', hss, hall⟩ := (of_decide_eq_true hcheck).exists_ok
  have hperm : (["abc", "xyz"] : List Denom).Perm ["xyz", "abc"] := .swap ..
  obtain ⟨ss', n', hss', hperm', hsame⟩ := hrun.cycles_order_free.2 _ _ _ _ hperm hss
  exact ⟨log, m, ss, m', ss', n', hrun, hperm, hss, hall, hss', hperm', hsame⟩

end BondMarket
