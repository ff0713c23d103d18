import BondMarket.Proofs.Run

/-!
The shares of a pool over a run. A cycle leaves the pool of every bond undiluted, whether it closes
the batch of that bond, closes that of another or only counts down, and so do cycles one after
another.
-/

namespace BondMarket

namespace Market

variable {cfg : Config} {bonded : Denom → Prop} {fills : Denom → Nat} {m m₁ m' : Market}
  {token : Denom}

/-- No pool whose supply stays small enough has been diluted. -/
def PoolsKept (m m' : Market) : Prop :=
  ∀ t b, Table.get? m.store.bonds t = some b → b.isSwapper = true → b.maxSupply ≤ 1000000000 →
    ∃ b', Table.get? m'.store.bonds t = some b' ∧ b'.terms = b.terms ∧
      Undiluted t b b'.supply m m'

theorem PoolsKept.refl (m : Market) : PoolsKept m m :=
  fun _ b hb _ _ => ⟨b, hb, rfl, .of_same fun _ => rfl⟩

theorem PoolsKept.trans (h : PoolsKept m m₁) (h' : PoolsKept m₁ m')
    (hm : Kept cfg bonded m') : PoolsKept m m' := by
  intro t b hb hswap hmax
  obtain ⟨b₁, hb₁, hterms, hundiluted⟩ := h t b hb hswap hmax
  obtain ⟨b', hb', hterms', hundiluted'⟩ := h' t b₁ hb₁ ((Bond.isSwapper_congr hterms).trans hswap)
    ((Bond.maxSupply_congr hterms).trans_le hmax)
  obtain ⟨-, β', -, hheld'⟩ := hm.held t b' hb'
  exact ⟨b', hb', hterms'.trans hterms, hundiluted.trans hundiluted'
    (Bond.reserveTokens_congr hterms) hheld'.supply_nonneg hm.solvent⟩

theorem elapseCycle_poolsKept (hsep : cfg.Separate) (h : Sound cfg bonded fills m)
    {s : Option Settlement} (hs : elapseCycle cfg token m = .ok s m') : PoolsKept m m' := by
  obtain ⟨b₀, hb₀⟩ := exists_bond_of_elapseCycle hs
  obtain ⟨-, β, hβ, -⟩ := h.kept.held token b₀ hb₀
  have hapart := ((elapseCycle_sat_of_bond hsep h hb₀ hβ).of_ok hs).2.1
  intro t b hb hswap hmax
  obtain ⟨b', hb', hterms⟩ := hapart.lasting t b hb
  refine ⟨b', hb', hterms, ?_⟩
  by_cases ht : t = token
  · subst ht
    obtain rfl := Option.some.inj (hb₀.symm.trans hb)
    cases s with
    | some s =>
        obtain ⟨-, hclosed⟩ := elapseCycle_closed hsep h hb₀ hβ hs
        exact (hclosed.pool hswap hmax b' hb').congr fun _ => rfl
    | none =>
        rcases (elapseCycle_sat_of_close hb₀ hβ fun _ => Action.Sat.trivial _ _).of_ok hs with
          ⟨-, -, rfl⟩ | ⟨-, _, hsome, -⟩
        · obtain rfl := Option.some.inj (hb₀.symm.trans hb')
          exact .of_same fun _ => rfl
        · cases hsome
  · obtain rfl := Option.some.inj (hb'.symm.trans ((hapart.bond t ht).trans hb))
    exact .of_same (hapart.reserve t ht)

theorem handle_poolsKept (hsep : cfg.Separate) (h : Sound cfg bonded fills m) {r : Request}
    (hr : r = .cycle token ∨ r = .endCycle) :
    (handle cfg r).Sat m
      (fun _ m' => (∃ fills, Sound cfg bonded fills m') ∧ PoolsKept m m') fun _ _ => True := by
  have hcycle (token : Denom) {m₁ : Market} {fills₁ : Denom → Nat}
      (hsound : Sound cfg bonded fills₁ m₁) (hkept : PoolsKept m m₁) :
      (elapseCycle cfg token).Sat m₁
        (fun _ m' => (∃ fills, Sound cfg bonded fills m') ∧ PoolsKept m m') fun _ _ => True := by
    refine (elapseCycle_sat hsep hsound token).recall.mono (fun s m' hs => ?_) fun _ _ _ => trivial
    obtain ⟨hrun, hsound', -⟩ := hs
    exact ⟨⟨_, hsound'⟩, hkept.trans (elapseCycle_poolsKept hsep hsound hrun) hsound'.kept⟩
  rcases hr with rfl | rfl
  · simp only [handle, Action.sat_map]
    exact hcycle token h (.refl m)
  · simp only [handle, Action.sat_map]
    rw [endCycle, Action.sat_bind, Action.sat_get]
    refine Action.sat_gather
      (I := fun _ _ m₁ => (∃ fills, Sound cfg bonded fills m₁) ∧ PoolsKept m m₁) ?_ _
      ⟨⟨_, h⟩, .refl m⟩
    rintro token _ _ m₁ ⟨⟨_, hsound⟩, hkept⟩
    exact hcycle token hsound hkept

end Market

/-- The shares of a swapper bond whose supply is bounded by a billion are never diluted. In every
run, its reserve account has some of either reserve token while shares are out, and when the batch
of this bond is closed, or cycles of all bonds are, then for the square of a share the product of
the reserves is at least what it was. -/
theorem CleanRun.shares_undiluted {cfg : Config} {bonded : Denom → Prop} {log : List Response}
    {m : Market} (h : CleanRun cfg bonded log m) {t : Denom} {b : Bond}
    (hb : m.store.bond? t = some b) (hswap : b.isSwapper = true) (hmax : b.maxSupply ≤ 10 ^ 9) :
    ∃ x y, b.reserveTokens = [x, y] ∧
      (0 < b.supply → 0 < m.balance b.reserveAddress x ∧ 0 < m.balance b.reserveAddress y) ∧
      ∀ r answer m', (r = .cycle t ∨ r = .endCycle) → Market.handle cfg r m = .ok answer m' →
        ∃ b', m'.store.bond? t = some b' ∧
          m.balance b.reserveAddress x * m.balance b.reserveAddress y * b'.supply ^ 2 ≤
            m'.balance b'.reserveAddress x * m'.balance b'.reserveAddress y * b.supply ^ 2 ∧
          (0 < b'.supply →
            0 < m'.balance b'.reserveAddress x ∧ 0 < m'.balance b'.reserveAddress y) := by
  obtain ⟨hsep, hsound⟩ := h.sound
  have hformed := hsound.kept.formed hb
  obtain ⟨x, y, htokens⟩ := hformed.exists_pair hswap
  refine ⟨x, y, htokens, fun hpos => ?_, fun r answer m' hr hrun => ?_⟩
  · have hstock := (hsound.stocked t b hb).positive hswap hmax hpos
    exact ⟨hstock x (by simp [htokens]), hstock y (by simp [htokens])⟩
  · obtain ⟨⟨_, hsound'⟩, hkept⟩ := (Market.handle_poolsKept hsep hsound hr).of_ok hrun
    obtain ⟨b', hb', hterms, hundiluted⟩ := hkept t b hb hswap hmax
    have htokens' := (Bond.reserveTokens_congr hterms).trans htokens
    refine ⟨b', hb', ?_, fun hpos => ?_⟩
    · rw [hformed.address, (hsound'.kept.formed hb').address]
      exact hundiluted.product x y htokens
    · have hstock := (hsound'.stocked t b' hb').positive ((Bond.isSwapper_congr hterms).trans hswap)
        ((Bond.maxSupply_congr hterms).trans_le hmax) hpos
      exact ⟨hstock x (by simp [htokens']), hstock y (by simp [htokens'])⟩

/-- A pool of seven shares with fees, and orders of each kind that wait for the next settlement: a
buy, a sell, a swap that is filled and one that is too small. -/
def poolEvents : List Event :=
  let funds : CoinEntries := [("res", some 200), ("rez", some 800)]
  let buy (buyer : Account) (amount res rez : Nat) : Event := .request (.buy {
    buyer, amount := ⟨"abc", amount⟩, maxPrices := [("res", some res), ("rez", some rez)] })
  let swap (swapper : Account) (amount : Nat) : Event := .request (.swap {
    swapper, bondToken := "abc", source := ⟨"res", amount⟩, toToken := "rez" })
  [.post (.mint "alice" funds), .post (.mint "bob" funds),
    .request (.create {
      token := "abc"
      name := "n"
      description := "d"
      creator := "z"
      functionType := "swapper_function"
      parameters := []
      reserveTokens := ["res", "rez"]
      txFee := Dec.one
      exitFee := Dec.one
      feeAddress := "fees"
      maxSupply := ⟨"abc", 1000000000⟩
      signers := ["z"] }),
    buy "alice" 7 100 405, buy "bob" 5 90 400,
    .request (.sell { seller := "alice", amount := ⟨"abc", 2⟩ }),
    swap "alice" 20, swap "bob" 1]

/-- The close leaves ten shares, each of them worth a little more than before. -/
theorem shares_undiluted_seven :
    ∃ log m b x y answer m' b', CleanRun {} (· ∈ ["abc"]) log m ∧
      m.store.bond? "abc" = some b ∧ b.isSwapper = true ∧ b.maxSupply ≤ 10 ^ 9 ∧ b.supply = 7 ∧
      b.reserveTokens = [x, y] ∧ 0 < m.balance b.reserveAddress x ∧
      0 < m.balance b.reserveAddress y ∧
      Market.handle {} (.cycle "abc") m = .ok answer m' ∧ m'.store.bond? "abc" = some b' ∧
      b'.supply = 10 ∧
      m.balance b.reserveAddress x * m.balance b.reserveAddress y * 10 ^ 2 ≤
        m'.balance b'.reserveAddress x * m'.balance b'.reserveAddress y * 7 ^ 2 ∧
      0 < m'.balance b'.reserveAddress x ∧ 0 < m'.balance b'.reserveAddress y := by
  obtain ⟨log, m, hrun, hcheck⟩ := CleanRun.exists_of_playClean ["abc"] poolEvents
    (fun m => (m.store.bond? "abc").any (fun b =>
        b.isSwapper = true ∧ b.maxSupply ≤ 10 ^ 9 ∧ b.supply = 7) ∧
      (Market.handle {} (.cycle "abc")).Sat m
        (fun _ m' => (m'.store.bond? "abc").any (fun b => b.supply = 10) = true)
        fun _ _ => False)
    (by decide +kernel)
  obtain ⟨hbond, hcycle⟩ := of_decide_eq_true hcheck
  obtain ⟨b, hb, hbond⟩ := (Option.any_eq_true _ _).1 hbond
  obtain ⟨hswap, hmax, hseven⟩ := of_decide_eq_true hbond
  obtain ⟨answer, m', hanswer, hten⟩ := hcycle.exists_ok
  obtain ⟨b₁, hb₁, hten⟩ := (Option.any_eq_true _ _).1 hten
  obtain ⟨x, y, htokens, hbefore, hcycles⟩ := hrun.shares_undiluted hb hswap hmax
  obtain ⟨b', hb', hproduct, hafter⟩ := hcycles _ answer m' (.inl rfl) hanswer
  obtain rfl : b₁ = b' := Option.some.inj (hb₁.symm.trans hb')
  have hten : b₁.supply = 10 := of_decide_eq_true hten
  rw [hten, hseven] at hproduct
  obtain ⟨hx, hy⟩ := hbefore (by omega)
  obtain ⟨hx', hy'⟩ := hafter (by omega)
  exact ⟨log, m, b, x, y, answer, m', b₁, hrun, hb, hswap, hmax, hseven, htokens, hx, hy, hanswer,
    hb₁, hten, hproduct, hx', hy'⟩

end BondMarket
