import BondMarket.Market.Handler
import BondMarket.Proofs.Action

/-!
A request that is turned down changes nothing. Whether a request is turned down is decided before
its first call of the ledger, or by that call, which then moves nothing. Whatever comes afterwards
can still fail, but not with a rejection: refused moves and failed repricing are escalated, a swap
that the pool turns down is cancelled, and the arithmetic of a settlement knows only faults.

This holds of every market, also of one that has been told to refuse a call, and whatever its books
look like.
-/

namespace BondMarket

/-! ### Computations that never turn a request down -/

structure Result.NeverRejects {α : Type} (x : Result α) : Prop where
  of_error : ∀ e, x = .error e → e.isRejection = false

namespace Result.NeverRejects

variable {α β : Type}

theorem ok (a : α) : NeverRejects (.ok a) := ⟨fun _ he => by cases he⟩

theorem error {e : Error} (he : e.isRejection = false) : NeverRejects (.error e : Result α) :=
  ⟨fun e' he' => by cases he'; exact he⟩

theorem fail (f : Fault) : NeverRejects (f.fail : Result α) := error rfl

theorem bind {x : Result α} {f : α → Result β} (hx : NeverRejects x)
    (hf : ∀ a, NeverRejects (f a)) : NeverRejects (x >>= f) := by
  cases x with
  | ok a => exact hf a
  | error e => exact error (hx.of_error e rfl)

theorem map {x : Result α} (hx : NeverRejects x) (f : α → β) : NeverRejects (x.map f) := by
  cases x with
  | ok a => exact ok _
  | error e => exact error (hx.of_error e rfl)

theorem traverse {α β : Type} {f : Denom → α → Result β} (hf : ∀ d a, NeverRejects (f d a))
    (t : Table Denom α) : NeverRejects (Table.traverse f t) := by
  induction t with
  | nil => exact ok _
  | cons p t ih =>
      unfold Table.traverse
      exact (hf _ _).bind fun _ => ih.bind fun _ => ok _

end Result.NeverRejects

open Result (NeverRejects)

theorem Error.isRejection_escalate (e : Error) (what : String) :
    (e.escalate what).isRejection = false := by
  unfold escalate
  split
  · rfl
  · rename_i h
    exact Bool.not_eq_true _ ▸ h

namespace Coins

theorem ofEntries_neverRejects (es : CoinEntries) : NeverRejects (ofEntries es) := by
  refine .map (.traverse (fun d n => ?_) _) _
  unfold checkAmount
  split
  · exact .fail _
  · split
    · exact .fail _
    · exact .ok _

theorem normalize_neverRejects (c : Coins) : NeverRejects c.normalize := ofEntries_neverRejects _

theorem sub_neverRejects (a b : Coins) : NeverRejects (a.sub b) := by
  refine .bind ?_ fun _ => normalize_neverRejects _
  induction b generalizing a with
  | nil => exact .ok _
  | cons p b ih =>
      simp only [subEntries]
      split
      · exact .fail _
      · exact ih _

end Coins

theorem Fee.ofValues_neverRejects (values : DecCoins) (percentage : Dec) :
    NeverRejects (Fee.ofValues values percentage) := by
  refine .bind (.traverse (fun _ v => ?_) _) fun _ => Coins.normalize_neverRejects _
  unfold Fee.ofValue
  split
  · exact .fail _
  · split
    · exact .fail _
    · exact .ok _

theorem Params.value_neverRejects (ps : Params) (name : String) :
    NeverRejects (ps.value name) := by
  unfold value
  split
  · exact .ok _
  · exact .fail _

theorem Batch.orderAt_neverRejects {α : Type} (orders : List α) (index : Nat) :
    NeverRejects (Batch.orderAt orders index) := by
  unfold orderAt
  split
  · exact .ok _
  · exact .fail _

theorem Order.cancel_neverRejects (o : Order) (reason : String) :
    NeverRejects (o.cancel reason) := by
  unfold cancel
  split
  · exact .ok _
  · exact .fail _

theorem Batch.cancelBuy_neverRejects (β : Batch) (index : Nat) (reason : String) :
    NeverRejects (β.cancelBuy index reason) := by
  refine (orderAt_neverRejects ..).bind fun o => .bind ?_ fun _ => .ok _
  exact (o.toOrder.cancel_neverRejects reason).bind fun _ => .ok _

theorem Batch.markSwap_neverRejects (β : Batch) (index : Nat) (reason : String) :
    NeverRejects (β.markSwap index reason) := by
  refine (orderAt_neverRejects ..).bind fun o => .bind ?_ fun _ => .ok _
  exact (o.toOrder.cancel_neverRejects reason).bind fun _ => .ok _

theorem Batch.new_neverRejects (token : Denom) (blocks : Int) :
    NeverRejects (Batch.new token blocks) := by
  unfold new
  split
  · exact .fail _
  · exact .ok _

namespace Store

theorem require_neverRejects {α : Type} (kind : String) (t : Table Denom α) (token : Denom) :
    NeverRejects (require kind t token) := by
  unfold require
  split
  · exact .ok _
  · exact .error rfl

theorem setSupply_neverRejects (s : Store) (token : Denom) (supply : Int) :
    NeverRejects (s.setSupply token supply) := by
  unfold setSupply
  split
  · exact .error rfl
  · exact (require_neverRejects ..).bind fun _ => .ok _

end Store

namespace Bond

variable (b : Bond)

theorem buyCost_neverRejects (amount : Int) (prices : DecCoins) :
    NeverRejects (b.buyCost amount prices) :=
  (Coins.normalize_neverRejects _).bind fun _ => (Fee.ofValues_neverRejects ..).bind fun _ =>
    (Coins.normalize_neverRejects _).bind fun _ => .ok _

theorem sellProceeds_neverRejects (amount : Int) (prices : DecCoins) :
    NeverRejects (b.sellProceeds amount prices) :=
  (Coins.normalize_neverRejects _).bind fun _ => (Fee.ofValues_neverRejects ..).bind fun _ =>
    (Fee.ofValues_neverRejects ..).bind fun _ => (Coins.normalize_neverRejects _).bind fun _ =>
      (Coins.normalize_neverRejects _).bind fun _ => (Coins.sub_neverRejects ..).bind fun _ => .ok _

theorem splitHatchPayment_neverRejects (reserve : Coins) (amount : Int) (paid : Coins) :
    NeverRejects (b.splitHatchPayment reserve amount paid) := by
  unfold splitHatchPayment
  split
  · exact .fail _
  · refine (Params.value_neverRejects ..).bind fun _ => (Params.value_neverRejects ..).bind
      fun _ => ?_
    dsimp only
    split
    · exact .error rfl
    · exact (Coins.sub_neverRejects ..).bind fun _ => .ok _

theorem planBuy_neverRejects (reserve : Coins) (o : BuyOrder) (prices : DecCoins) :
    NeverRejects (b.planBuy reserve o prices) := by
  refine (b.buyCost_neverRejects ..).bind fun cost => ?_
  split
  · exact .error rfl
  · refine (Coins.sub_neverRejects ..).bind fun _ => ?_
    split
    · exact (b.splitHatchPayment_neverRejects ..).bind fun _ => .ok _
    · exact .ok _

theorem hatchLimit_neverRejects : NeverRejects b.hatchLimit :=
  (Params.value_neverRejects ..).bind fun _ => .ok _

theorem violations_neverRejects : NeverRejects b.violations := by
  unfold violations
  dsimp only
  split
  · exact b.hatchLimit_neverRejects.bind fun _ => .ok _
  · exact .ok _

end Bond

/-! ### Actions that never turn a request down -/

structure Action.NeverRejects {α : Type} (act : Action α) : Prop where
  sat : ∀ m, act.Sat m (fun _ _ => True) fun e _ => e.isRejection = false

namespace Action.NeverRejects

variable {α β : Type}

theorem lift {x : Result α} (hx : Result.NeverRejects x) : NeverRejects (liftM x) :=
  ⟨fun _ => sat_lift.2 ⟨fun _ _ => trivial, hx.of_error⟩⟩

theorem throw {e : Error} (he : e.isRejection = false) :
    NeverRejects (MonadExcept.throw e : Action α) := ⟨fun _ => he⟩

theorem bind {act : Action α} {f : α → Action β} (h : NeverRejects act)
    (hf : ∀ a, NeverRejects (f a)) : NeverRejects (act >>= f) :=
  ⟨fun m => sat_bind.2 ((h.sat m).imp fun a m' _ => (hf a).sat m')⟩

theorem map {act : Action α} (h : NeverRejects act) (f : α → β) : NeverRejects (f <$> act) :=
  ⟨fun m => sat_map.2 ((h.sat m).imp fun _ _ _ => trivial)⟩

end Action.NeverRejects

namespace Market

variable {α β : Type} (cfg : Config) (token : Denom)

theorem pure_neverRejects (a : α) : (pure a : Action α).NeverRejects := ⟨fun _ => trivial⟩

theorem get_neverRejects : (get : Action Market).NeverRejects := ⟨fun _ => trivial⟩

theorem modify_neverRejects (f : Market → Market) : (modify f : Action PUnit).NeverRejects :=
  ⟨fun _ => trivial⟩

theorem bond_neverRejects (m : Market) :
    (liftM (m.store.bond token) : Action Bond).NeverRejects :=
  .lift (Store.require_neverRejects ..)

theorem batch_neverRejects (m : Market) :
    (liftM (m.store.batch token) : Action Batch).NeverRejects :=
  .lift (Store.require_neverRejects ..)

theorem orderAt_neverRejects (orders : List α) (index : Nat) :
    (liftM (Batch.orderAt orders index) : Action α).NeverRejects :=
  .lift (Batch.orderAt_neverRejects ..)

theorem gather_neverRejects {act : α → Action (Option β)} (h : ∀ i, (act i).NeverRejects)
    (is : List α) : (gather act is).NeverRejects := by
  induction is with
  | nil => exact pure_neverRejects _
  | cons i is ih => exact (h i).bind fun _ => ih.bind fun _ => pure_neverRejects _

theorem carryOut_neverRejects (v : Move) : (carryOut v).NeverRejects := by
  refine ⟨fun m => ?_⟩
  unfold carryOut Action.Sat
  cases hrun : call v.call m with
  | ok _ _ => simp only [hrun]
  | error e _ => simp only [hrun, e.isRejection_escalate]

theorem carryOutAll_neverRejects (vs : List Move) : (carryOutAll vs).NeverRejects := by
  induction vs with
  | nil => exact pure_neverRejects _
  | cons v vs ih => exact (carryOut_neverRejects v).bind fun _ => ih

theorem setSupply_neverRejects (supply : Int) : (setSupply token supply).NeverRejects := by
  refine get_neverRejects.bind fun m => ?_
  refine .bind (.lift (Store.setSupply_neverRejects ..)) fun store => ?_
  exact ⟨fun _ => trivial⟩

theorem syncReserve_neverRejects : (syncReserve token).NeverRejects := by
  refine get_neverRejects.bind fun m => ?_
  refine (bond_neverRejects token m).bind fun b => ?_
  exact modify_neverRejects _

/-! ### Settlements -/

theorem cancelIfUnaffordable_neverRejects (index : Nat) :
    (cancelIfUnaffordable cfg token index).NeverRejects := by
  refine get_neverRejects.bind fun m => ?_
  refine (bond_neverRejects token m).bind fun b => ?_
  refine (batch_neverRejects token m).bind fun β => ?_
  refine (orderAt_neverRejects ..).bind fun o => ?_
  split
  · exact pure_neverRejects _
  · split
    · exact pure_neverRejects _
    · rename_i e _
      -- What turns the buy down becomes a cancellation, and only what does not is passed on.
      split
      · rename_i he
        exact .throw (by simpa using he)
      · refine .bind (.lift (Batch.cancelBuy_neverRejects ..)) fun _ => ?_
        refine (modify_neverRejects _).bind fun _ => ?_
        exact (carryOutAll_neverRejects _).bind fun _ => pure_neverRejects _

theorem reprice_neverRejects : (reprice token).NeverRejects := by
  refine get_neverRejects.bind fun m => ?_
  refine (batch_neverRejects token m).bind fun β => ?_
  split
  · exact modify_neverRejects _
  · exact .throw (Error.isRejection_escalate ..)

theorem cancelUnfulfillable_neverRejects : (cancelUnfulfillable cfg token).NeverRejects := by
  refine .bind ?_ fun cancelled => ?_
  · refine get_neverRejects.bind fun m => ?_
    refine (bond_neverRejects token m).bind fun _ => ?_
    refine (batch_neverRejects token m).bind fun β => ?_
    exact gather_neverRejects (cancelIfUnaffordable_neverRejects cfg token) _
  · split
    · exact pure_neverRejects _
    · exact (reprice_neverRejects token).bind fun _ => pure_neverRejects _

theorem performBuy_neverRejects (o : BuyOrder) (prices : DecCoins) :
    (performBuy cfg token o prices).NeverRejects := by
  refine get_neverRejects.bind fun m => ?_
  refine (bond_neverRejects token m).bind fun b => ?_
  refine .bind (.lift (b.planBuy_neverRejects ..)) fun p => ?_
  refine (carryOutAll_neverRejects _).bind fun _ => ?_
  refine (setSupply_neverRejects ..).bind fun _ => ?_
  exact (syncReserve_neverRejects token).bind fun _ => pure_neverRejects _

theorem performSell_neverRejects (o : SellOrder) (prices : DecCoins) :
    (performSell token o prices).NeverRejects := by
  refine get_neverRejects.bind fun m => ?_
  refine (bond_neverRejects token m).bind fun b => ?_
  refine .bind (.lift (b.sellProceeds_neverRejects ..)) fun p => ?_
  refine (carryOutAll_neverRejects _).bind fun _ => ?_
  refine (setSupply_neverRejects ..).bind fun _ => ?_
  exact (syncReserve_neverRejects token).bind fun _ => pure_neverRejects _

theorem cancelSwap_neverRejects (index : Nat) (o : SwapOrder) (reason : String) :
    (cancelSwap cfg token index o reason).NeverRejects := by
  refine get_neverRejects.bind fun m => ?_
  refine (batch_neverRejects token m).bind fun β => ?_
  refine .bind (.lift (β.markSwap_neverRejects ..)) fun _ => ?_
  refine (modify_neverRejects _).bind fun _ => ?_
  exact (carryOutAll_neverRejects _).bind fun _ => pure_neverRejects _

theorem performSwap_neverRejects (index : Nat) : (performSwap cfg token index).NeverRejects := by
  refine get_neverRejects.bind fun m => ?_
  refine (bond_neverRejects token m).bind fun b => ?_
  refine (batch_neverRejects token m).bind fun β => ?_
  refine (orderAt_neverRejects ..).bind fun o => ?_
  split
  · split
    · exact cancelSwap_neverRejects ..
    · rename_i he
      exact .throw (by simpa using he)
  · refine (carryOutAll_neverRejects _).bind fun _ => ?_
    exact (syncReserve_neverRejects token).bind fun _ => pure_neverRejects _

theorem performOpenSwap_neverRejects (index : Nat) :
    (performOpenSwap cfg token index).NeverRejects := by
  refine get_neverRejects.bind fun m => ?_
  refine (batch_neverRejects token m).bind fun β => ?_
  refine (orderAt_neverRejects ..).bind fun o => ?_
  split
  · exact (performSwap_neverRejects ..).bind fun _ => pure_neverRejects _
  · exact pure_neverRejects _

theorem performOrders_neverRejects : (performOrders cfg token).NeverRejects := by
  refine get_neverRejects.bind fun m => ?_
  refine (batch_neverRejects token m).bind fun β => ?_
  refine (gather_neverRejects (fun o => ?_) _).bind fun buys => ?_
  · exact (performBuy_neverRejects cfg token o _).map _
  refine (gather_neverRejects (fun o => ?_) _).bind fun sells => ?_
  · exact (performSell_neverRejects token o _).map _
  refine (gather_neverRejects (performOpenSwap_neverRejects cfg token) _).bind fun swaps => ?_
  exact pure_neverRejects _

theorem settle_neverRejects : (settle cfg token).NeverRejects := by
  refine (cancelUnfulfillable_neverRejects cfg token).bind fun _ => ?_
  refine get_neverRejects.bind fun m => ?_
  refine (batch_neverRejects token m).bind fun _ => ?_
  refine (performOrders_neverRejects cfg token).bind fun _ => ?_
  refine get_neverRejects.bind fun m => ?_
  refine .bind (.lift ?_) fun vs => ?_
  · refine (Store.require_neverRejects ..).bind fun b => ?_
    refine (Store.require_neverRejects ..).bind fun _ => ?_
    exact b.violations_neverRejects.bind fun _ => .ok _
  · cases vs with
    | nil => exact pure_neverRejects _
    | cons v vs => exact .throw rfl

theorem openIfHatched_neverRejects : (openIfHatched token).NeverRejects := by
  refine get_neverRejects.bind fun m => ?_
  refine (bond_neverRejects token m).bind fun b => ?_
  split
  · exact pure_neverRejects _
  · refine .bind (.lift b.hatchLimit_neverRejects) fun _ => ?_
    split
    · exact pure_neverRejects _
    · exact (modify_neverRejects _).bind fun _ => pure_neverRejects _

theorem closeBatch_neverRejects : (closeBatch cfg token).NeverRejects := by
  refine (settle_neverRejects cfg token).bind fun _ => ?_
  refine (openIfHatched_neverRejects token).bind fun _ => ?_
  refine get_neverRejects.bind fun m => ?_
  refine (batch_neverRejects token m).bind fun _ => ?_
  refine .bind ⟨fun _ => trivial⟩ fun _ => ?_
  refine (bond_neverRejects token m).bind fun _ => ?_
  refine .bind (.lift (Batch.new_neverRejects ..)) fun _ => ?_
  exact (modify_neverRejects _).bind fun _ => pure_neverRejects _

theorem elapseCycle_neverRejects : (elapseCycle cfg token).NeverRejects := by
  refine get_neverRejects.bind fun m => ?_
  refine (bond_neverRejects token m).bind fun _ => ?_
  refine (batch_neverRejects token m).bind fun _ => ?_
  refine (modify_neverRejects _).bind fun _ => ?_
  split
  · exact pure_neverRejects _
  · exact (closeBatch_neverRejects cfg token).bind fun _ => pure_neverRejects _

theorem endCycle_neverRejects : (endCycle cfg).NeverRejects :=
  get_neverRejects.bind fun _ => gather_neverRejects (elapseCycle_neverRejects cfg) _

end Market

/-! ### Requests -/

/-- An action that leaves store and ledger as they were where it turns a request down. -/
structure Action.RejectsUnchanged {α : Type} (act : Action α) : Prop where
  sat : ∀ m, act.Sat m (fun _ _ => True) fun e m' =>
    e.isRejection = true → m'.store = m.store ∧ m'.ledger = m.ledger

namespace Action.RejectsUnchanged

variable {α β : Type}

theorem of_neverRejects {act : Action α} (h : act.NeverRejects) : RejectsUnchanged act := by
  refine ⟨fun m => (h.sat m).mono (fun _ _ _ => trivial) fun e m' he hrejected => ?_⟩
  cases he.symm.trans hrejected

theorem map {act : Action α} (h : RejectsUnchanged act) (f : α → β) :
    RejectsUnchanged (f <$> act) :=
  ⟨fun m => sat_map.2 ((h.sat m).imp fun _ _ _ => trivial)⟩

theorem get_bind {f : Market → Action α} (h : ∀ m, RejectsUnchanged (f m)) :
    RejectsUnchanged (get >>= f) :=
  ⟨fun m => (h m).sat m⟩

/-- What decides on a request has not changed anything yet. -/
theorem decide_bind {x : Result α} {f : α → Action β} (h : ∀ a, RejectsUnchanged (f a)) :
    RejectsUnchanged ((liftM x : Action α) >>= f) := by
  refine ⟨fun m => ?_⟩
  rw [sat_bind, sat_lift]
  exact ⟨fun a _ => (h a).sat m, fun _ _ _ => ⟨rfl, rfl⟩⟩

/-- What follows an action that may turn the request down must not do so any more. -/
theorem bind {act : Action α} {f : α → Action β} (h : RejectsUnchanged act)
    (hf : ∀ a, (f a).NeverRejects) : RejectsUnchanged (act >>= f) := by
  refine ⟨fun m => sat_bind.2 ((h.sat m).imp fun a m₁ _ => ?_)⟩
  refine ((hf a).sat m₁).mono (fun _ _ _ => trivial) fun e m' he hrejected => ?_
  cases he.symm.trans hrejected

theorem call (c : LedgerCall) : RejectsUnchanged (Market.call c) := by
  refine ⟨fun m => ?_⟩
  unfold Sat Market.call
  dsimp only
  split <;> rename_i hrun
  · trivial
  · split at hrun
    · cases hrun
      exact fun _ => ⟨rfl, rfl⟩
    · split at hrun <;> cases hrun
      exact fun _ => ⟨rfl, rfl⟩

end Action.RejectsUnchanged

namespace Market

open BondMarket.Action (RejectsUnchanged)

variable (cfg : Config)

theorem createBond_rejectsUnchanged (r : CreateBond) : RejectsUnchanged (createBond cfg r) := by
  refine .decide_bind fun functionType => .get_bind fun m => ?_
  refine .decide_bind fun _ => .decide_bind fun b => .decide_bind fun batch => ?_
  refine .of_neverRejects ((modify_neverRejects _).bind fun _ => ?_)
  exact (modify_neverRejects _).bind fun _ => pure_neverRejects _

theorem editBond_rejectsUnchanged (r : EditBond) : RejectsUnchanged (editBond cfg r) := by
  refine .get_bind fun m => .decide_bind fun b => ?_
  exact .of_neverRejects ((modify_neverRejects _).bind fun _ => pure_neverRejects _)

theorem foundPool_rejectsUnchanged (token : Denom) (b : Bond) (o : BuyOrder) :
    RejectsUnchanged (foundPool cfg token b o) := by
  refine (RejectsUnchanged.call _).bind fun _ => ?_
  refine (carryOutAll_neverRejects _).bind fun _ => ?_
  exact (setSupply_neverRejects ..).bind fun _ => syncReserve_neverRejects token

theorem joinBatch_rejectsUnchanged (token : Denom) (o : BuyOrder) (prices : ClearingPrices) :
    RejectsUnchanged (joinBatch cfg token o prices) := by
  refine (RejectsUnchanged.call _).bind fun _ => get_neverRejects.bind fun m => ?_
  refine (batch_neverRejects token m).bind fun _ => (modify_neverRejects _).bind fun _ => ?_
  refine (cancelUnfulfillable_neverRejects cfg token).bind fun _ => ?_
  refine get_neverRejects.bind fun m' => (batch_neverRejects token m').bind fun _ => ?_
  exact orderAt_neverRejects ..

theorem submitBuy_rejectsUnchanged (r : BuyRequest) : RejectsUnchanged (submitBuy cfg r) := by
  refine .get_bind fun m => .decide_bind fun e => ?_
  cases e with
  | found b o =>
      exact (foundPool_rejectsUnchanged cfg r.amount.denom b o).bind fun _ => pure_neverRejects _
  | join o prices => exact joinBatch_rejectsUnchanged cfg r.amount.denom o prices

theorem submitSell_rejectsUnchanged (r : SellRequest) : RejectsUnchanged (submitSell cfg r) := by
  refine .get_bind fun m => .decide_bind fun op => ?_
  refine (RejectsUnchanged.call _).bind fun _ => (carryOut_neverRejects _).bind fun _ => ?_
  refine get_neverRejects.bind fun m' => (batch_neverRejects _ m').bind fun _ => ?_
  exact (modify_neverRejects _).bind fun _ => pure_neverRejects _

theorem submitSwap_rejectsUnchanged (r : SwapRequest) : RejectsUnchanged (submitSwap cfg r) := by
  refine .get_bind fun m => .decide_bind fun o => ?_
  refine (RejectsUnchanged.call _).bind fun _ => get_neverRejects.bind fun m' => ?_
  refine (batch_neverRejects _ m').bind fun _ => ?_
  exact (modify_neverRejects _).bind fun _ => pure_neverRejects _

theorem payOutcome_rejectsUnchanged (r : PayOutcome) : RejectsUnchanged (payOutcome r) := by
  refine .get_bind fun m => .decide_bind fun bp => ?_
  refine (RejectsUnchanged.call _).bind fun _ => (modify_neverRejects _).bind fun _ => ?_
  exact (syncReserve_neverRejects _).bind fun _ => pure_neverRejects _

theorem withdrawShare_rejectsUnchanged (r : WithdrawShare) :
    RejectsUnchanged (withdrawShare cfg r) := by
  refine .get_bind fun m => .decide_bind fun w => ?_
  refine (RejectsUnchanged.call _).bind fun _ => (carryOutAll_neverRejects _).bind fun _ => ?_
  refine (setSupply_neverRejects ..).bind fun _ => ?_
  exact (syncReserve_neverRejects _).bind fun _ => pure_neverRejects _

/-- A request that is turned down has left every bond, every batch, every balance and every total
as they were. -/
theorem handle_rejected {r : Request} {m m' : Market} {e : Error}
    (h : handle cfg r m = .error e m') (he : e.isRejection = true) :
    m'.store = m.store ∧ m'.ledger = m.ledger := by
  have hunchanged : RejectsUnchanged (handle cfg r) := by
    cases r with
    | create r => exact (createBond_rejectsUnchanged cfg r).map _
    | edit r => exact (editBond_rejectsUnchanged cfg r).map _
    | buy r => exact (submitBuy_rejectsUnchanged cfg r).map _
    | sell r => exact (submitSell_rejectsUnchanged cfg r).map _
    | swap r => exact (submitSwap_rejectsUnchanged cfg r).map _
    | pay r => exact (payOutcome_rejectsUnchanged r).map _
    | withdraw r => exact (withdrawShare_rejectsUnchanged cfg r).map _
    | cycle token =>
        exact (RejectsUnchanged.of_neverRejects (elapseCycle_neverRejects cfg token)).map _
    | endCycle => exact (RejectsUnchanged.of_neverRejects (endCycle_neverRejects cfg)).map _
  exact (hunchanged.sat m).of_error h he

def unpaidMarket : Market where
  store := {
    bonds := [("abc", {
      token := "abc"
      name := "n"
      description := "d"
      creator := "z"
      functionType := .power
      parameters := [("m", Dec.zero), ("n", Dec.zero), ("c", Dec.one)]
      reserveTokens := ["res"]
      txFee := Dec.zero
      exitFee := Dec.zero
      feeAddress := "fees"
      maxSupply := 10
      reserveAddress := reserveAccountFor "abc"
      outcomePayment := [("res", 5)] })]
    batches := [("abc", { token := "abc", blocksRemaining := 1 })] }
  ledger := { entries := [(("alice", "res"), 3)], totals := [("res", 3)] }

/-- The payment is turned down by the ledger itself, after all that the market checks. -/
theorem handle_rejected_unpaid :
    ∃ m', handle {} (.pay { sender := "alice", bondToken := "abc" }) unpaidMarket =
        .error (.insufficientFunds "alice" "res" 3 5) m' ∧
      m'.store = unpaidMarket.store ∧ m'.ledger = unpaidMarket.ledger := by
  have hpay : (handle {} (.pay { sender := "alice", bondToken := "abc" })).Sat unpaidMarket
      (fun _ _ => False) (fun e _ => e = .insufficientFunds "alice" "res" 3 5) := by
    decide +kernel
  obtain ⟨e, m', hpay, rfl⟩ := hpay.exists_error
  exact ⟨m', hpay, handle_rejected {} hpay rfl⟩

end Market
end BondMarket
