import BondMarket.Proofs.Invariant
import Mathlib.Data.List.Perm.Basic

/-!
What a settlement reports of its orders. An outcome reports an order if it names it; the outcome of
a buy also divides what the buy had put into escrow, and charges nothing where the buy was
cancelled. By what it reports, a filled order adds to the reserve or takes from it; the reserve
account has *gained* what some outcomes report if it has changed by just that.
-/

namespace BondMarket

def Outcome.reserveGain (out : Outcome) (d : Denom) : Int :=
  if out.isFill then
    match out.kind with
    | .buy => out.prices.amountOf d - out.funding.amountOf d
    | .sell => -(out.returned.amountOf d + out.fees.amountOf d)
    | .swap => out.amount.amountOf d - out.fees.amountOf d - out.returned.amountOf d
  else 0

theorem Outcome.reserveGain_of_cancelled {out : Outcome} (h : out.isFill = false) (d : Denom) :
    out.reserveGain d = 0 := by
  simp [reserveGain, h]

structure Order.Reported (kind : OrderKind) (o : Order) (out : Outcome) : Prop where
  kind : out.kind = kind
  address : out.address = o.address
  amount : out.amount = o.amount.toCoins

/-- An outcome of a buy: what the buy had put into escrow was charged or went back. A buy that was
cancelled before is reported with its reason. -/
structure BuyOrder.Reported (o : BuyOrder) (out : Outcome) : Prop extends
    o.toOrder.Reported .buy out where
  divides : ∀ d, out.prices.amountOf d + out.fees.amountOf d + out.returned.amountOf d =
    o.maxPrices.amountOf d
  uncharged : out.isFill = false → out.prices = [] ∧ out.fees = [] ∧ out.funding = []
  closed : o.isOpen = false → out.cancelReason = o.cancelReason

def BuyOrder.Charged (o : BuyOrder) (prices : DecCoins) (out : Outcome) : Prop :=
  ∀ d, out.prices.amountOf d = ((prices.times o.size).amountOf d).ceilInt

def Order.Paid (o : Order) (prices : DecCoins) (out : Outcome) : Prop :=
  ∀ d, out.returned.amountOf d + out.fees.amountOf d = ((prices.times o.size).amountOf d).floorInt

/-- Outcomes that report all orders of a batch, each of them once. -/
def Batch.Reported (β : Batch) (os : List Outcome) : Prop :=
  ∃ buys sells swaps, os.Perm (buys ++ sells ++ swaps) ∧
    List.Forall₂ BuyOrder.Reported β.buys buys ∧
    List.Forall₂ (Order.Reported .sell) β.sells sells ∧
    List.Forall₂ (fun o out => o.toOrder.Reported .swap out) β.swaps swaps

/-- Outcomes that report, in their order, the open buys and sells of a batch as filled at its
prices, and then its swaps. -/
def Batch.Performed (β : Batch) (os : List Outcome) : Prop :=
  ∃ buys sells swaps, os = buys ++ sells ++ swaps ∧
    List.Forall₂ (fun o out => BuyOrder.Reported o out ∧ out.isFill = true ∧
      o.Charged β.buyPrices out) β.openBuys buys ∧
    List.Forall₂ (fun o out => Order.Reported .sell o out ∧ out.isFill = true ∧
      o.Paid β.sellPrices out) β.openSells sells ∧
    List.Forall₂ (fun o out => o.toOrder.Reported .swap out) β.swaps swaps

theorem BuyOrder.reported_ofCancelledBuy {o : BuyOrder} (h : o.isOpen = false) :
    o.Reported (Outcome.ofCancelledBuy o) where
  kind := rfl
  address := rfl
  amount := rfl
  divides d := by simp [Outcome.ofCancelledBuy]
  uncharged _ := ⟨rfl, rfl, rfl⟩
  closed _ := by
    cases hr : o.cancelReason with
    | none => simp [Order.isOpen, hr] at h
    | some reason => simp [Outcome.ofCancelledBuy, hr]

/-- Where the elements of a list are dealt with in two parts, all of them are dealt with. -/
theorem forall₂_of_filter {α β : Type} {R : α → β → Prop} (p : α → Bool) {xs : List α}
    {ys zs : List β} (hys : List.Forall₂ R (xs.filter fun x => !p x) ys)
    (hzs : List.Forall₂ R (xs.filter p) zs) :
    ∃ outs, List.Forall₂ R xs outs ∧ (ys ++ zs).Perm outs := by
  have hperm : xs.Perm ((xs.filter fun x => !p x) ++ xs.filter p) :=
    (List.filter_append_perm p xs).symm.trans List.perm_append_comm
  obtain ⟨outs, houts, houtsPerm⟩ := List.perm_comp_forall₂ hperm (List.rel_append hys hzs)
  exact ⟨outs, houts, houtsPerm.symm⟩

namespace Batch

variable {β : Batch} {os : List Outcome}

/-- With the outcomes of the buys that were cancelled before, all orders are reported. -/
theorem Performed.reported (h : β.Performed os) (hsells : β.openSells = β.sells) :
    β.Reported ((β.buys.filter fun o => !o.isOpen).map Outcome.ofCancelledBuy ++ os) := by
  obtain ⟨buys, sells, swaps, rfl, hbuys, hsold, hswaps⟩ := h
  have hclosed : List.Forall₂ BuyOrder.Reported (β.buys.filter fun o => !o.isOpen)
      ((β.buys.filter fun o => !o.isOpen).map Outcome.ofCancelledBuy) := by
    refine List.forall₂_map_right_iff.2 (List.forall₂_same.2 fun o ho => ?_)
    exact BuyOrder.reported_ofCancelledBuy (by simpa using (List.mem_filter.1 ho).2)
  obtain ⟨outs, houts, hperm⟩ := forall₂_of_filter (fun o : BuyOrder => o.isOpen) hclosed
    (hbuys.imp fun _ _ h => h.1)
  refine ⟨outs, sells, swaps, ?_, houts, hsells ▸ hsold.imp fun _ _ h => h.1, hswaps⟩
  simp only [← List.append_assoc]
  exact (hperm.append_right sells).append_right swaps

theorem Performed.length_le (h : β.Performed os) :
    β.openBuys.length + β.openSells.length ≤ (os.filter fun out => out.isFill).length := by
  obtain ⟨buys, sells, swaps, rfl, hbuys, hsold, -⟩ := h
  have hfilled {α : Type} {R S : α → Outcome → Prop} {orders : List α} {outs : List Outcome}
      (h : List.Forall₂ (fun o out => R o out ∧ out.isFill = true ∧ S o out) orders outs) :
      orders.length = (outs.filter fun out => out.isFill).length := by
    rw [List.filter_eq_self.2 fun out hout => ?_, h.length_eq]
    obtain ⟨i, hi, rfl⟩ := List.getElem_of_mem hout
    exact (h.get (h.length_eq ▸ hi) hi).2.1
  rw [List.filter_append, List.filter_append, List.length_append, List.length_append,
    ← hfilled hbuys, ← hfilled hsold]
  exact Nat.le_add_right _ _

end Batch

namespace Market

def Gained (token : Denom) (os : List Outcome) (m m' : Market) : Prop :=
  ∀ d, m'.balance (reserveAccountFor token) d =
    m.balance (reserveAccountFor token) d + (os.map fun out => out.reserveGain d).sum

variable {token : Denom} {m m₁ m₂ : Market} {os os' : List Outcome}

theorem Gained.nil (h : ∀ d, m₁.balance (reserveAccountFor token) d =
    m.balance (reserveAccountFor token) d) : Gained token [] m m₁ := by
  intro d
  rw [h, List.map_nil, List.sum_nil, add_zero]

theorem Gained.append (h : Gained token os m m₁) (h' : Gained token os' m₁ m₂) :
    Gained token (os ++ os') m m₂ := by
  intro d
  rw [h', h, List.map_append, List.sum_append, add_assoc]

theorem Gained.cancelled (h : Gained token os m m₁)
    (hos' : ∀ out ∈ os', out.isFill = false) : Gained token (os' ++ os) m m₁ := by
  intro d
  have hzero : (os'.map fun out => out.reserveGain d).sum = 0 :=
    List.sum_eq_zero fun n hn => by
      obtain ⟨out, hout, rfl⟩ := List.mem_map.1 hn
      exact Outcome.reserveGain_of_cancelled (hos' out hout) d
  rw [h, List.map_append, List.sum_append, hzero, zero_add]

end Market
end BondMarket
