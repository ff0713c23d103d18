import BondMarket.Market.Lifecycle
import BondMarket.Proofs.Postings

/-!
Closings side by side. A closing of a bond reads the records of that bond and its reserve account.
Of every other account it learns no more than whether it covers a debit. Two markets that agree on
what is read may therefore differ in all other balances by any *shift*: what comes out well in the
one comes out in the same way in the other, and leaves the two with the same shift between them,
unless an account that the bonds share is found wanting there.

`Action.Follows` says this of two actions on two markets, `Action.Blind` of one action on any two
markets that are displaced. Every construct of an action has a rule, and every action of a closing
is put together from them.
-/

namespace BondMarket

/-! ### Ledgers -/

namespace Ledger

/-- Two ledgers whose balances differ by a shift, and whose totals by a raise. -/
structure Displaced (shift : Account → Denom → Int) (raise : Denom → Int) (l k : Ledger) : Prop
    where
  balance : ∀ a d, k.balanceOf a d = l.balanceOf a d + shift a d
  total : ∀ d, k.totalSupply d = l.totalSupply d + raise d

variable {shift : Account → Denom → Int} {raise : Denom → Int} {l k l' : Ledger}

theorem Displaced.put (h : l.Displaced shift raise k) (a : Account) (d : Denom) (n : Int) :
    (l.put a d n).Displaced shift raise (k.put a d (n + shift a d)) := by
  refine ⟨fun a' d' => ?_, h.total⟩
  rw [balanceOf_put, balanceOf_put, h.balance]
  split
  · rename_i heq
    rw [heq.1, heq.2]
  · rfl

theorem Displaced.foldl_put {f : Ledger → Denom × Int → Int} {a : Account}
    (hf : ∀ l k, l.Displaced shift raise k → ∀ p, f k p = f l p + shift a p.1) (c : Coins)
    (h : l.Displaced shift raise k) :
    (c.foldl (fun l p => l.put a p.1 (f l p)) l).Displaced shift raise
      (c.foldl (fun l p => l.put a p.1 (f l p)) k) := by
  induction c generalizing l k with
  | nil => exact h
  | cons p c ih =>
      rw [List.foldl_cons, List.foldl_cons, hf l k h]
      exact ih (h.put a p.1 _)

theorem Displaced.credit (h : l.Displaced shift raise k) (a : Account) (c : Coins) :
    (l.credit a c).Displaced shift raise (k.credit a c) := by
  refine h.foldl_put (fun l k h p => ?_) c
  rw [h.balance]
  ring

theorem Displaced.debit (h : l.Displaced shift raise k) (a : Account) (c : Coins) :
    (l.debit a c).Displaced shift raise (k.debit a c) := by
  refine h.foldl_put (fun l k h p => ?_) c
  rw [h.balance]
  ring

theorem amountOf_addEntries_add {t u : Coins} (h : ∀ d, u.amountOf d = t.amountOf d + raise d)
    (c : Coins) (d : Denom) :
    (u.addEntries c).amountOf d = (t.addEntries c).amountOf d + raise d := by
  induction c generalizing t u with
  | nil => exact h d
  | cons p c ih =>
      refine ih fun d' => ?_
      rw [Coins.amountOf_set, Coins.amountOf_set, h, h]
      split
      · rename_i heq
        rw [heq]
        ring
      · rfl

theorem Displaced.raiseTotals (h : l.Displaced shift raise k) (c : Coins) :
    (l.raiseTotals c).Displaced shift raise (k.raiseTotals c) :=
  ⟨h.balance, amountOf_addEntries_add h.total c⟩

theorem Displaced.lowerTotals (h : l.Displaced shift raise k) (c : Coins) :
    (l.lowerTotals c).Displaced shift raise (k.lowerTotals c) :=
  ⟨h.balance, amountOf_addEntries_add h.total _⟩

/-- An account that is not shifted covers the same coins. -/
theorem Displaced.covers_eq (h : l.Displaced shift raise k) {a : Account}
    (ha : ∀ d, shift a d = 0) (c : Coins) : k.covers a c = l.covers a c := by
  induction c with
  | nil => rfl
  | cons p c ih => simp only [covers, h.balance, ha, add_zero, ih]

theorem Displaced.covers (h : l.Displaced shift raise k) {a : Account} {c : Coins}
    (hcovers : l.covers a c = .ok ()) :
    k.covers a c = .ok () ∨
      (∃ e, k.covers a c = .error e ∧ e.isRejection = true) ∧ ¬ ∀ d, shift a d = 0 := by
  cases hk : k.covers a c with
  | ok u => exact .inl rfl
  | error e =>
      refine .inr ⟨⟨e, rfl, covers_error hk⟩, fun hstill => ?_⟩
      rw [h.covers_eq hstill, hcovers] at hk
      cases hk

/-- A call that is carried out on the one ledger is carried out on the other, or it is turned down
there, which can only be if the account that it debits is shifted. -/
theorem Displaced.run (h : l.Displaced shift raise k) {call : LedgerCall}
    (hrun : l.run call = .ok l') :
    (∃ k', k.run call = .ok k' ∧ l'.Displaced shift raise k') ∨
      (∃ e, k.run call = .error e ∧ e.isRejection = true) ∧
        ∃ a, call.payer = some a ∧ ¬ ∀ d, shift a d = 0 := by
  cases call with
  | mint x es =>
      simp only [Ledger.run, mint, Result.bind_eq_ok, Result.pure_eq_ok] at hrun ⊢
      obtain ⟨c, hc, hl'⟩ := hrun
      cases hl'
      exact .inl ⟨_, ⟨c, hc, rfl⟩, (h.credit x c).raiseTotals c⟩
  | burn x es =>
      simp only [Ledger.run, burn, Result.bind_eq_ok, Result.pure_eq_ok] at hrun
      obtain ⟨c, hc, _, hcovers, hl'⟩ := hrun
      cases hl'
      simp only [Ledger.run, burn, hc, Result.ok_bind]
      rcases h.covers hcovers with hk | ⟨⟨e, hk, he⟩, hshift⟩
      · exact .inl ⟨_, by rw [hk]; rfl, (h.debit x c).lowerTotals c⟩
      · exact .inr ⟨⟨e, by rw [hk]; rfl, he⟩, x, rfl, hshift⟩
  | transfer x y es =>
      simp only [Ledger.run, transfer, Result.bind_eq_ok, Result.pure_eq_ok] at hrun
      obtain ⟨c, hc, _, hcovers, hl'⟩ := hrun
      cases hl'
      simp only [Ledger.run, transfer, hc, Result.ok_bind]
      rcases h.covers hcovers with hk | ⟨⟨e, hk, he⟩, hshift⟩
      · exact .inl ⟨_, by rw [hk]; rfl, (h.debit x c).credit y c⟩
      · exact .inr ⟨⟨e, by rw [hk]; rfl, he⟩, x, rfl, hshift⟩

end Ledger

/-! ### Markets -/

/-- Two markets with the same records of a bond, and ledgers that differ by a shift which leaves out
the reserve account of the bond. -/
structure Market.Displaced (token : Denom) (shift : Account → Denom → Int) (raise : Denom → Int)
    (m n : Market) : Prop where
  refusals : n.refusals = m.refusals
  bond : Table.get? n.store.bonds token = Table.get? m.store.bonds token
  batch : Table.get? n.store.batches token = Table.get? m.store.batches token
  last : Table.get? n.store.lastBatches token = Table.get? m.store.lastBatches token
  ledger : m.ledger.Displaced shift raise n.ledger
  still : ∀ b, Table.get? m.store.bonds token = some b → ∀ d, shift b.reserveAddress d = 0

inductive Purpose.IsShared : Purpose → Prop
  | sendTokens : IsShared .sendTokens
  | depositReserve : IsShared .depositReserve
  | releaseEscrow : IsShared .releaseEscrow

/-- A move debits an account that is not shifted, or it has a purpose for which a shared account is
debited. -/
def Move.Steady (shift : Account → Denom → Int) (v : Move) : Prop :=
  ∀ a, v.call.payer = some a → v.purpose.IsShared ∨ ∀ d, shift a d = 0

/-- The error of a move that has found a shared account wanting. -/
def Error.Wanting (e : Error) : Prop := ∃ purpose : Purpose, purpose.IsShared ∧ purpose.Failed e

namespace Action

variable {α β : Type} {R : Market → Market → Prop} {m n : Market}

/-- If an action comes out well, another one on another market gives the same result and keeps the
relation between the markets, unless it finds a shared account wanting. -/
def Follows (R : Market → Market → Prop) (act act' : Action α) (m n : Market) : Prop :=
  ∀ a m', act m = .ok a m' →
    act'.Sat n (fun a' n' => a' = a ∧ R m' n') (fun e _ => e.Wanting)

/-- An action does not see what a relation between markets leaves open. -/
def Blind (R : Market → Market → Prop) (act : Action α) : Prop :=
  ∀ m n, R m n → act.Follows R act m n

theorem Follows.pure (h : R m n) (a : α) : Follows R (pure a) (pure a) m n := by
  intro a' m' hrun
  cases hrun
  exact ⟨rfl, h⟩

theorem Follows.throw (e : Error) (act : Action α) : Follows R (throw e) act m n := by
  intro a m' hrun
  cases hrun

theorem Follows.bind {act act' : Action α} {f f' : α → Action β} (h : act.Follows R act' m n)
    (hf : ∀ a m' n', R m' n' → (f a).Follows R (f' a) m' n') :
    (act >>= f).Follows R (act' >>= f') m n := by
  intro b m'' hrun
  obtain ⟨a, m', hact, hrest⟩ := bind_eq_ok.1 hrun
  rw [sat_bind]
  apply (h a m' hact).imp
  rintro _ n' ⟨rfl, hR⟩
  exact hf _ m' n' hR b m'' hrest

theorem Follows.map {act act' : Action α} (h : act.Follows R act' m n) (f : α → β) :
    (f <$> act).Follows R (f <$> act') m n := by
  simp only [← bind_pure_comp]
  exact h.bind fun a _ _ hR => .pure hR (f a)

theorem Follows.get {f f' : Market → Action β} (hf : (f m).Follows R (f' n) m n) :
    (MonadState.get >>= f).Follows R (MonadState.get >>= f') m n := hf

theorem Follows.lift {x : Result α} {f f' : α → Action β}
    (hf : ∀ a, x = .ok a → (f a).Follows R (f' a) m n) :
    ((liftM x : Action α) >>= f).Follows R ((liftM x : Action α) >>= f') m n := by
  cases x with
  | ok a => exact hf a rfl
  | error e =>
      intro b m' hrun
      cases hrun

/-- What is computed may differ, as long as both computations come out well. -/
theorem Follows.lift_of_ok {x x' : Result α} {a a' : α} (hx : x = .ok a) (hx' : x' = .ok a')
    {f f' : α → Action β} (hf : (f a).Follows R (f' a') m n) :
    ((liftM x : Action α) >>= f).Follows R ((liftM x' : Action α) >>= f') m n := by
  subst hx hx'
  exact hf

theorem Blind.gather {act : α → Action (Option β)} (h : ∀ i, (act i).Blind R) (is : List α) :
    (Market.gather act is).Blind R := by
  induction is with
  | nil => exact fun m n hR => .pure hR []
  | cons i is ih =>
      intro m n hR
      refine (h i m n hR).bind fun o m' n' hR' => ?_
      exact (ih m' n' hR').bind fun os _ _ hR'' => .pure hR'' _

theorem Blind.carryOutAll {vs : List Move} (h : ∀ v ∈ vs, (Market.carryOut v).Blind R) :
    (Market.carryOutAll vs).Blind R := by
  induction vs with
  | nil => exact fun m n hR => .pure hR ()
  | cons v vs ih =>
      intro m n hR
      refine (h v List.mem_cons_self m n hR).bind fun _ m' n' hR' => ?_
      exact ih (fun w hw => h w (List.mem_cons_of_mem _ hw)) m' n' hR'

end Action

namespace Market

variable {cfg : Config} {token : Denom} {shift : Account → Denom → Int} {raise : Denom → Int}
  {m n : Market}

/-! ### What is read -/

theorem Displaced.bond_eq (h : Displaced token shift raise m n) :
    n.store.bond token = m.store.bond token := by
  simp only [Store.bond, Store.require, h.bond]

theorem Displaced.batch_eq (h : Displaced token shift raise m n) :
    n.store.batch token = m.store.batch token := by
  simp only [Store.batch, Store.require, h.batch]

theorem get?_of_bond_eq_ok {b : Bond} (h : m.store.bond token = .ok b) :
    Table.get? m.store.bonds token = some b := by
  unfold Store.bond Store.require at h
  split at h
  · rename_i b' hb'
    cases h
    exact hb'
  · cases h

theorem Displaced.reserveOf_eq (h : Displaced token shift raise m n) {b : Bond}
    (hb : m.store.bond token = .ok b) : n.reserveOf b = m.reserveOf b := by
  have hstill := h.still b (get?_of_bond_eq_ok hb)
  simp only [reserveOf, h.ledger.balance, hstill, add_zero]

theorem Displaced.batchPrices_eq (h : Displaced token shift raise m n) (β : Batch) :
    n.batchPrices token β = m.batchPrices token β := by
  unfold batchPrices
  rw [h.bond_eq]
  cases hb : m.store.bond token with
  | error e => rfl
  | ok b => rw [Result.ok_bind, Result.ok_bind, h.reserveOf_eq hb]

theorem Displaced.violations_eq (h : Displaced token shift raise m n) :
    n.violations token = m.violations token := by
  simp only [violations, h.bond_eq, h.batch_eq]

/-! ### What is written -/

theorem Displaced.setBatch (h : Displaced token shift raise m n) (β : Batch) :
    (setBatch token β).Follows (Displaced token shift raise) (setBatch token β) m n := by
  intro _ m' hrun
  cases hrun
  refine ⟨rfl, { h with batch := ?_ }⟩
  exact (Table.get?_set_self ..).trans (Table.get?_set_self ..).symm

theorem Displaced.setBond (h : Displaced token shift raise m n) {b b' : Bond}
    (hb : m.store.bond token = .ok b) (haddress : b'.reserveAddress = b.reserveAddress) :
    (setBond token b').Follows (Displaced token shift raise) (setBond token b') m n := by
  intro _ m' hrun
  cases hrun
  refine ⟨rfl, { h with bond := ?_, still := fun b₁ hb₁ => ?_ }⟩
  · exact (Table.get?_set_self ..).trans (Table.get?_set_self ..).symm
  · cases (Table.get?_set_self ..).symm.trans hb₁
    rw [haddress]
    exact h.still b (get?_of_bond_eq_ok hb)

theorem setSupply_eq (token : Denom) (supply : Int) :
    setSupply token supply = (if supply < 0 then
      throw (.violated [s!"current supply of {token} would be negative ({supply})"])
    else do
      let b ← (← get).store.bond token
      setBond token { b with supply }) := by
  funext m
  by_cases hneg : supply < 0
  · simp only [setSupply, Store.setSupply, hneg, if_true]
    rfl
  · simp only [setSupply, Store.setSupply, hneg, if_false]
    change _ = ((liftM (m.store.bond token) : Action Bond) >>= _) m
    change ((liftM (m.store.bond token >>= _) : Action Store) >>= _) m = _
    cases m.store.bond token <;> rfl

theorem blind_setSupply (supply : Int) :
    (setSupply token supply).Blind (Displaced token shift raise) := by
  intro m n h
  rw [setSupply_eq]
  split
  · exact .throw _ _
  · refine .get ?_
    rw [h.bond_eq]
    exact .lift fun b hb => h.setBond hb rfl

theorem blind_syncReserve : (syncReserve token).Blind (Displaced token shift raise) := by
  intro m n h
  refine .get ?_
  rw [h.bond_eq]
  refine .lift fun b hb => ?_
  rw [h.reserveOf_eq hb]
  exact h.setBond hb rfl

/-! ### What is moved -/

theorem follows_carryOut {R : Market → Market → Prop} {v : Move} (hv : v.Steady shift)
    (hrefusals : n.refusals = m.refusals) (hledger : m.ledger.Displaced shift raise n.ledger)
    (hR : ∀ refusals l k, l.Displaced shift raise k →
      R { m with refusals, ledger := l } { n with refusals, ledger := k }) :
    (carryOut v).Follows R (carryOut v) m n := by
  intro _ m' hrun
  have hcalls : n.refusals.count v.call.method = m.refusals.count v.call.method := by
    rw [hrefusals]
  unfold Action.Sat
  simp only [carryOut, call, hcalls] at hrun ⊢
  cases hrefused : (m.refusals.count v.call.method).1 with
  | true => simp [hrefused] at hrun
  | false =>
      simp only [hrefused, Bool.false_eq_true, if_false] at hrun ⊢
      cases hl : m.ledger.run v.call with
      | error e => simp [hl] at hrun
      | ok l =>
          simp only [hl, EStateM.Result.ok.injEq, true_and] at hrun
          subst hrun
          rcases hledger.run hl with ⟨k, hk, hledger'⟩ | ⟨⟨e, hk, he⟩, a, ha, hshift⟩
          · simp only [hk]
            exact ⟨True.intro, hR _ _ _ hledger'⟩
          · simp only [hk]
            exact ⟨v.purpose, (hv a ha).resolve_right hshift, e, he, rfl⟩

theorem blind_carryOut {v : Move} (hv : v.Steady shift) :
    (carryOut v).Blind (Displaced token shift raise) := fun _ _ h =>
  follows_carryOut hv h.refusals h.ledger fun _ _ _ hledger =>
    { h with refusals := rfl, ledger := hledger }

theorem blind_carryOutAll {vs : List Move} (hvs : ∀ v ∈ vs, v.Steady shift) :
    (carryOutAll vs).Blind (Displaced token shift raise) :=
  Action.Blind.carryOutAll fun v hv => blind_carryOut (hvs v hv)

theorem payer_of_mem_transferIfAny {purpose : Purpose} {x y : Account} {c : Coins} {v : Move}
    (hv : v ∈ Move.transferIfAny purpose x y c) : v.call.payer = some x := by
  unfold Move.transferIfAny at hv
  split at hv
  · cases hv
  · rw [List.mem_singleton.1 hv]
    rfl

theorem steady_transferIfAny {purpose : Purpose} {x y : Account} {c : Coins}
    (h : purpose.IsShared ∨ ∀ d, shift x d = 0) :
    ∀ v ∈ Move.transferIfAny purpose x y c, v.Steady shift := by
  intro v hv a ha
  rw [payer_of_mem_transferIfAny hv] at ha
  cases ha
  rw [Move.purpose_of_mem_transferIfAny hv]
  exact h

theorem steady_buyMoves (b : Bond) (o : BuyOrder) (p : BuyPlan) :
    ∀ v ∈ b.buyMoves cfg o p, v.Steady shift := by
  intro v hv
  simp only [Bond.buyMoves, List.mem_cons, List.mem_append] at hv
  rcases hv with rfl | rfl | ((hv | hv) | hv) | hv
  · exact fun a ha => by cases ha
  · exact fun _ _ => .inl .sendTokens
  · exact steady_transferIfAny (.inl .depositReserve) v hv
  · exact steady_transferIfAny (.inl .releaseEscrow) v hv
  · exact steady_transferIfAny (.inl .releaseEscrow) v hv
  · exact steady_transferIfAny (.inl .releaseEscrow) v hv

theorem steady_sellMoves {b : Bond} (hb : ∀ d, shift b.reserveAddress d = 0) (o : SellOrder)
    (p : Bond.SellProceeds) : ∀ v ∈ b.sellMoves o p, v.Steady shift := by
  intro v hv
  rcases List.mem_append.1 hv with hv | hv
  · exact steady_transferIfAny (.inr hb) v hv
  · exact steady_transferIfAny (.inr hb) v hv

theorem steady_swapMoves {b : Bond} (hb : ∀ d, shift b.reserveAddress d = 0) (o : SwapOrder)
    (p : SwapPlan) : ∀ v ∈ b.swapMoves cfg o p, v.Steady shift := by
  intro v hv
  simp only [Bond.swapMoves, List.mem_cons, List.mem_append] at hv
  rcases hv with hv | rfl | hv
  · exact steady_transferIfAny (.inr hb) v hv
  · exact fun _ _ => .inl .depositReserve
  · exact steady_transferIfAny (.inl .releaseEscrow) v hv

/-! ### The actions of a closing -/

theorem blind_performBuy (o : BuyOrder) (prices : DecCoins) :
    (performBuy cfg token o prices).Blind (Displaced token shift raise) := by
  intro m n h
  refine .get ?_
  rw [h.bond_eq]
  refine .lift fun b hb => ?_
  rw [h.reserveOf_eq hb]
  refine .lift fun p _ => (blind_carryOutAll (steady_buyMoves b o p) m n h).bind fun _ _ _ h => ?_
  refine (blind_setSupply _ _ _ h).bind fun _ _ _ h => ?_
  exact (blind_syncReserve _ _ h).bind fun _ _ _ h => .pure h _

theorem blind_performSell (o : SellOrder) (prices : DecCoins) :
    (performSell token o prices).Blind (Displaced token shift raise) := by
  intro m n h
  refine .get ?_
  rw [h.bond_eq]
  refine .lift fun b hb => .lift fun p _ => ?_
  have hsteady := steady_sellMoves (h.still b (get?_of_bond_eq_ok hb)) o p
  refine (blind_carryOutAll hsteady m n h).bind fun _ _ _ h => ?_
  refine (blind_setSupply _ _ _ h).bind fun _ _ _ h => ?_
  exact (blind_syncReserve _ _ h).bind fun _ _ _ h => .pure h _

theorem blind_cancelSwap (index : Nat) (o : SwapOrder) (reason : String) :
    (cancelSwap cfg token index o reason).Blind (Displaced token shift raise) := by
  intro m n h
  refine .get ?_
  rw [h.batch_eq]
  refine .lift fun β _ => .lift fun β' _ => (h.setBatch β').bind fun _ m' n' h => ?_
  refine (blind_carryOutAll ?_ m' n' h).bind fun _ _ _ h => .pure h _
  exact steady_transferIfAny (.inl .releaseEscrow)

theorem blind_performSwap (index : Nat) :
    (performSwap cfg token index).Blind (Displaced token shift raise) := by
  intro m n h
  refine .get ?_
  rw [h.bond_eq]
  refine .lift fun b hb => ?_
  rw [h.batch_eq, h.reserveOf_eq hb]
  refine .lift fun β _ => .lift fun o _ => ?_
  cases b.planSwap (m.reserveOf b) o with
  | error e =>
      dsimp only
      split
      · exact blind_cancelSwap index o _ m n h
      · exact .throw _ _
  | ok p =>
      have hsteady : ∀ v ∈ b.swapMoves cfg o p, v.Steady shift :=
        steady_swapMoves (h.still b (get?_of_bond_eq_ok hb)) o p
      refine (blind_carryOutAll hsteady m n h).bind fun _ _ _ h => ?_
      exact (blind_syncReserve _ _ h).bind fun _ _ _ h => .pure h _

theorem blind_performOpenSwap (index : Nat) :
    (performOpenSwap cfg token index).Blind (Displaced token shift raise) := by
  intro m n h
  refine .get ?_
  rw [h.batch_eq]
  refine .lift fun β _ => .lift fun o _ => ?_
  split
  · exact (blind_performSwap index m n h).bind fun _ _ _ h => .pure h _
  · exact .pure h _

theorem blind_performOrders : (performOrders cfg token).Blind (Displaced token shift raise) := by
  intro m n h
  refine .get ?_
  rw [h.batch_eq]
  refine .lift fun β _ => ?_
  refine (Action.Blind.gather (fun o m n h => (blind_performBuy o _ m n h).map _) _ m n h).bind
    fun _ _ _ h => ?_
  refine (Action.Blind.gather (fun o m n h => (blind_performSell o _ m n h).map _) _ _ _ h).bind
    fun _ _ _ h => ?_
  exact (Action.Blind.gather blind_performOpenSwap _ _ _ h).bind fun _ _ _ h => .pure h _

theorem blind_cancelIfUnaffordable (index : Nat) :
    (cancelIfUnaffordable cfg token index).Blind (Displaced token shift raise) := by
  intro m n h
  refine .get ?_
  rw [h.bond_eq, h.batch_eq]
  refine .lift fun b _ => .lift fun β _ => .lift fun o _ => ?_
  split
  · exact .pure h _
  · cases b.checkAffordable o β.buyPrices with
    | ok u => exact .pure h _
    | error e =>
        dsimp only
        split
        · exact .throw _ _
        · refine .lift fun c _ => (h.setBatch c.2).bind fun _ m' n' h => ?_
          refine (blind_carryOutAll ?_ m' n' h).bind fun _ _ _ h => .pure h _
          exact steady_transferIfAny (.inl .releaseEscrow)

theorem blind_cancelUnaffordableBuys :
    (cancelUnaffordableBuys cfg token).Blind (Displaced token shift raise) := by
  intro m n h
  refine .get ?_
  rw [h.bond_eq, h.batch_eq]
  exact .lift fun b _ => .lift fun β _ => Action.Blind.gather blind_cancelIfUnaffordable _ m n h

theorem blind_reprice : (reprice token).Blind (Displaced token shift raise) := by
  intro m n h
  refine .get ?_
  rw [h.batch_eq]
  refine .lift fun β _ => ?_
  rw [h.batchPrices_eq]
  cases m.batchPrices token β with
  | ok p => exact h.setBatch _
  | error e => exact .throw _ _

theorem blind_cancelUnfulfillable :
    (cancelUnfulfillable cfg token).Blind (Displaced token shift raise) := by
  intro m n h
  refine (blind_cancelUnaffordableBuys m n h).bind fun os _ _ h => ?_
  split
  · exact .pure h _
  · exact (blind_reprice _ _ h).bind fun _ _ _ h => .pure h _

theorem blind_settle : (settle cfg token).Blind (Displaced token shift raise) := by
  intro m n h
  refine (blind_cancelUnfulfillable m n h).bind fun _ m n h => .get ?_
  rw [h.batch_eq]
  refine .lift fun β _ => (blind_performOrders m n h).bind fun os m n h => .get ?_
  rw [h.violations_eq]
  refine .lift fun vs _ => ?_
  cases vs with
  | nil => exact .pure h _
  | cons v vs => exact .throw _ _

theorem blind_openIfHatched : (openIfHatched token).Blind (Displaced token shift raise) := by
  intro m n h
  refine .get ?_
  rw [h.bond_eq]
  refine .lift fun b hb => ?_
  split
  · exact .pure h _
  · refine .lift fun limit _ => ?_
    split
    · exact .pure h _
    · refine Action.Follows.bind (h.setBond hb ?_) fun _ _ _ h => .pure h _
      rfl

/-- Keeping a batch as the last one writes the same into both markets. -/
theorem Displaced.setLastBatch (h : Displaced token shift raise m n) (β : Batch) :
    (set { m with store := m.store.setLastBatch token β } : Action PUnit).Follows
      (Displaced token shift raise)
      (set { n with store := n.store.setLastBatch token β } : Action PUnit) m n := by
  intro _ m' hrun
  cases hrun
  refine ⟨rfl, { h with last := ?_ }⟩
  exact (Table.get?_set_self ..).trans (Table.get?_set_self ..).symm

theorem blind_closeBatch : (closeBatch cfg token).Blind (Displaced token shift raise) := by
  intro m n h
  refine (blind_settle m n h).bind fun s _ _ h => ?_
  refine (blind_openIfHatched _ _ h).bind fun phase m n h => .get ?_
  rw [h.batch_eq]
  refine .lift fun β _ => (h.setLastBatch β).bind fun _ m' n' h' => ?_
  -- The number of blocks is that of the bond as it was read before.
  rw [h.bond_eq]
  exact .lift fun b _ => .lift fun β' _ => (h'.setBatch β').bind fun _ _ _ h => .pure h _

/-- A cycle of a bond sees nothing of a market but the records of the bond and its reserve account,
and whether the shared accounts cover what they are to pay. -/
theorem blind_elapseCycle : (elapseCycle cfg token).Blind (Displaced token shift raise) := by
  intro m n h
  refine .get ?_
  rw [h.bond_eq, h.batch_eq]
  refine .lift fun b _ => .lift fun β _ => (h.setBatch _).bind fun _ m n h => ?_
  split
  · exact .pure h _
  · exact (blind_closeBatch m n h).bind fun s _ _ h => .pure h _

end Market
end BondMarket
