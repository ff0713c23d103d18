import BondMarket.Proofs.Run

/-!
The limits of the supply. They are checked when an order is admitted, against totals that later
requests change; what keeps them is that the orders which are pending leave room for each other. In
every run nothing is wrong with a bond or with its batch, so that what looks for it, once a batch
has been executed, finds nothing.
-/

namespace BondMarket

/-! ### Errors of the books -/

/-- The errors by which the books stop a market: a supply that would be negative, or what is found
wrong with a bond and its batch once the batch has been executed. -/
inductive Error.OfBooks : Error → Prop
  | supply {s : Store} {token : Denom} {supply : Int} {e : Error} (hneg : supply < 0)
      (h : s.setSupply token supply = .error e) : OfBooks e
  | found {m : Market} {token : Denom} {vs : List String} (h : m.violations token = .ok vs) :
      OfBooks (.violated vs)

/-- What can be wrong with a bond or a batch is worded with one of four initials. -/
theorem initial_of_mem_violations {m : Market} {token : Denom} {vs : List String}
    (h : m.violations token = .ok vs) {v : String} (hv : v ∈ vs) :
    v.toList.head? ∈ ['c', 'a', 't', 'n'].map some := by
  simp only [Market.violations, Result.bind_eq_ok] at h
  obtain ⟨b, -, β, -, found, hfound, hvs⟩ := h
  cases hvs
  rcases List.mem_append.1 hv with hv | hv
  · unfold Bond.violations at hfound
    dsimp only at hfound
    split at hfound
    · simp only [Result.bind_eq_ok] at hfound
      obtain ⟨limit, -, hfound⟩ := hfound
      cases hfound
      simp only [List.mem_append, List.mem_ite_nil_right, List.mem_singleton] at hv
      rcases hv with (((⟨-, rfl⟩ | ⟨-, rfl⟩) | ⟨-, rfl⟩) | ⟨-, rfl⟩) | ⟨-, rfl⟩ <;> decide
    · cases hfound
      simp only [List.mem_append, List.mem_ite_nil_right, List.mem_singleton] at hv
      rcases hv with (⟨-, rfl⟩ | ⟨-, rfl⟩) | ⟨-, rfl⟩ <;> decide
  · simp only [Batch.violations, List.mem_append, List.mem_ite_nil_right, List.mem_singleton] at hv
    rcases hv with (⟨-, rfl⟩ | ⟨-, rfl⟩) | ⟨-, rfl⟩ <;> decide

theorem Error.OfBooks.initial {e : Error} (h : e.OfBooks) :
    e.initial ∈ none :: ['c', 'a', 't', 'n'].map some := by
  cases h with
  | supply hneg h =>
      simp only [Store.setSupply, hneg, if_true] at h
      cases h
      simp [Error.initial, toString]
  | found h =>
      rename_i vs
      cases vs with
      | nil => exact List.mem_cons_self
      | cons v vs =>
          exact List.mem_cons_of_mem _ (initial_of_mem_violations h List.mem_cons_self)

theorem Batch.Formed.hasOpenOrders_eq_false {cfg : Config} {token : Denom} {β : Batch}
    (h : β.Formed cfg token) (hbuy : β.totalBuy = 0) (hsell : β.totalSell = 0)
    (hswaps : β.swaps = []) : β.hasOpenOrders = false := by
  simp [hasOpenOrders, h.openBuys_eq_nil hbuy, h.openSells_eq_nil hsell, h.openSwaps_eq, hswaps]

namespace Market

variable {cfg : Config} {bonded : Denom → Prop} {fills : Denom → Nat} {m : Market} {b : Bond}

/-- What stops a settlement is worded with other initials than what is found wrong. -/
theorem Stops.not_ofBooks {short : Prop} {e : Error} (h : Stops b short e) : ¬ e.OfBooks := by
  have hinitial : e.initial = some 'b' ∨ e.initial = some 'I' ∨ e.initial = some 'w' := by
    cases h with
    | buy h => exact h.initial.imp_right .inl
    | sell _ h => exact .inr (.inr (Purpose.initial_of_withdrawReserve h))
  intro hbooks
  have hother := hbooks.initial
  rcases hinitial with hinitial | hinitial | hinitial
  all_goals
    rw [hinitial] at hother
    exact absurd hother (by decide)

theorem elapseCycle_books (hsep : cfg.Separate) (h : Sound cfg bonded fills m) (token : Denom) :
    (elapseCycle cfg token).Sat m
      (fun s m' => Sound cfg bonded (fun t => fills t + Settlement.fillsIn s.toList t) m')
      (fun e _ => ¬ e.OfBooks) := by
  cases hb : Table.get? m.store.bonds token with
  | none =>
      refine (elapseCycle_sat_of_none hb).mono (fun _ _ hfalse => hfalse.elim) ?_
      rintro _ _ ⟨rfl, rfl⟩ hbooks
      cases hbooks with
      | supply hneg h => simp [Store.setSupply, hneg] at h
  | some b =>
      obtain ⟨-, β, hβ, -⟩ := h.kept.held token b hb
      exact (elapseCycle_sat_of_bond hsep h hb hβ).mono (fun _ _ hs => hs.1)
        fun _ _ he => he.1.not_ofBooks

theorem endCycle_books (hsep : cfg.Separate) (h : Sound cfg bonded fills m) :
    (endCycle cfg).Sat m (fun _ _ => True) (fun e _ => ¬ e.OfBooks) := by
  rw [endCycle, Action.sat_bind, Action.sat_get]
  refine (Action.sat_gather (I := fun _ _ m' => ∃ fills, Sound cfg bonded fills m')
    (fun token _ _ m' hI => ?_) _ ⟨fills, h⟩).imp fun _ _ _ => trivial
  obtain ⟨fills', hsound⟩ := hI
  exact (elapseCycle_books hsep hsound token).imp fun _ _ hs => ⟨_, hs⟩

theorem Sound.hasOpenOrders_of_unfounded {token : Denom} {β : Batch}
    (h : Sound cfg bonded fills m) (hb : Table.get? m.store.bonds token = some b)
    (hβ : Table.get? m.store.batches token = some β) (hswap : b.isSwapper = true)
    (hsupply : b.supply = 0) : β.hasOpenOrders = false := by
  have hheld := h.kept.held_of_get? hb hβ
  have htotal := (h.current token b β hb hβ).total_eq_zero hheld hswap hsupply
  have hbuy := hheld.orders.totalBuy_nonneg
  have hsell := hheld.orders.totalSell_nonneg
  refine hheld.orders.hasOpenOrders_eq_false (by omega) (by omega) ?_
  by_contra hne
  exact (h.trades token b β hb hβ hne).1 hsupply

end Market

/-- In every run the supply of a bond leaves room for the pending buys below its maximum and, in a
hatch, below the end of the hatch, and it covers the pending sells, of which a hatch has none. A
swapper bond without supply has no pending orders. Nothing is wrong with a bond or with its batch,
and no cycle is stopped by the books. -/
theorem CleanRun.limits_kept {cfg : Config} {bonded : Denom → Prop} {log : List Response}
    {m : Market} (h : CleanRun cfg bonded log m) :
    (∀ t b, m.store.bond? t = some b → ∃ β, m.store.batch t = .ok β ∧
      b.violations = .ok [] ∧ β.violations = [] ∧
      b.supply + β.totalBuy ≤ b.maxSupply ∧ β.totalSell ≤ b.supply ∧
      (b.inHatch = true → β.totalSell = 0 ∧
        ∃ limit, b.hatchLimit = .ok limit ∧ b.supply + β.totalBuy ≤ limit) ∧
      (b.isSwapper = true → b.supply = 0 → β.hasOpenOrders = false)) ∧
    (∀ t e m', Market.elapseCycle cfg t m = .error e m' → ¬ e.OfBooks) ∧
    ∀ e m', Market.endCycle cfg m = .error e m' → ¬ e.OfBooks := by
  obtain ⟨hsep, hsound⟩ := h.sound
  refine ⟨fun t b hb => ?_, fun t e m' he => ?_, fun e m' he => ?_⟩
  · obtain ⟨-, β, hβ, hheld⟩ := hsound.kept.held t b hb
    refine ⟨β, Market.batch_eq_ok hβ, hheld.violations_eq_nil hsound.kept.solvent,
      hheld.orders.violations_eq_nil, hheld.buys_le, hheld.sells_le,
      fun hh => ⟨(hheld.hatch hh).2, hheld.room hh⟩, fun hswap hsupply => ?_⟩
    exact hsound.hasOpenOrders_of_unfounded hb hβ hswap hsupply
  · exact (Market.elapseCycle_books hsep hsound t).of_error he
  · exact (Market.endCycle_books hsep hsound).of_error he

/-- Four tokens of a hatch are in circulation and five are ordered, below its end at ten. -/
theorem limits_kept_hatch :
    ∃ log m b β, CleanRun {} (· ∈ ["abc"]) log m ∧ m.store.bond? "abc" = some b ∧
      m.store.batch "abc" = .ok β ∧ b.inHatch = true ∧ b.supply = 4 ∧ β.totalBuy = 5 ∧
      b.violations = .ok [] ∧
      ∃ limit, b.hatchLimit = .ok limit ∧ limit = 10 ∧ b.supply + β.totalBuy ≤ limit := by
  obtain ⟨log, m, hrun, hcheck⟩ := CleanRun.exists_of_playClean ["abc"] hatchEvents
    (fun m => (m.store.bond? "abc").any fun b => (Table.get? m.store.batches "abc").any fun β =>
      b.inHatch = true ∧ b.supply = 4 ∧ β.totalBuy = 5 ∧
        b.hatchLimit.toOption = some 10)
    (by decide +kernel)
  obtain ⟨b, hb, hcheck⟩ := (Option.any_eq_true _ _).1 hcheck
  obtain ⟨β, hβ, hcheck⟩ := (Option.any_eq_true _ _).1 hcheck
  obtain ⟨hhatch, hsupply, hbuy, hten⟩ := of_decide_eq_true hcheck
  obtain ⟨β', hβ', hclean, -, -, -, hroom, -⟩ := hrun.limits_kept.1 "abc" b hb
  obtain rfl : β' = β := Except.ok.inj (hβ'.symm.trans (Market.batch_eq_ok hβ))
  obtain ⟨-, limit, hlimit, hle⟩ := hroom hhatch
  rw [hlimit] at hten
  exact ⟨log, m, b, β', hrun, hb, hβ', hhatch, hsupply, hbuy, hclean, limit, hlimit,
    Option.some.inj hten, hle⟩

end BondMarket
