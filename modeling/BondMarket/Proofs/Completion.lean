import BondMarket.Proofs.Displacement
import BondMarket.Proofs.Run

/-!
Swaps complete. In a close, a swap has its turn after the buys, the sells and the swaps before it,
on the reserve that they have left. Nothing stops a swap that has its turn: it is filled as it was
planned, and what the ledger then has of the reserve does not leave the sanity band, or it is turned
down and leaves no trace but its mark in the batch.

That the band is checked before a coin moves does no harm: the reserves it is checked on are those
that the moves of the swap lead to.
-/

namespace BondMarket
namespace Market

variable {cfg : Config} {bonded : Denom → Prop} {m m' : Market} {token : Denom} {b : Bond}
  {β : Batch}

/-! ### The turn of a swap -/

def swapAt (token : Denom) (index : Nat) : Action SwapOrder := do
  Batch.orderAt (← (← get).store.batch token).swaps index

def performToSwap (cfg : Config) (token : Denom) (index : Nat) : Action SwapOrder := do
  let batch ← (← get).store.batch token
  let _ ← gather (fun o => some <$> performBuy cfg token o batch.buyPrices) batch.openBuys
  let _ ← gather (fun o => some <$> performSell token o batch.sellPrices) batch.openSells
  let _ ← gather (performOpenSwap cfg token) (List.range index)
  swapAt token index

/-- Lets the cycles of other bonds pass, as they do in a cycle of all bonds, and closes a batch as
far as the turn of the swap at a place, which it gives. -/
def reachSwap (cfg : Config) (done : List Denom) (token : Denom) (index : Nat) :
    Action SwapOrder := do
  let _ ← gather (elapseCycle cfg) done
  let batch ← (← get).store.batch token
  setBatch token { batch with blocksRemaining := batch.blocksRemaining - 1 }
  let _ ← cancelUnfulfillable cfg token
  performToSwap cfg token index

theorem performToSwap_sat (hsep : cfg.Separate) (h : Kept cfg bonded m)
    (hb : Table.get? m.store.bonds token = some b)
    (hβ : Table.get? m.store.batches token = some β) (hc : m.Current b β) (index : Nat) :
    (performToSwap cfg token index).Sat m
      (fun o m' => ∃ total reserve front back, front.length = index ∧
        Executing cfg bonded token b ⟨β.buyPrices, β.sellPrices⟩ m total reserve
          (β.withSwaps (front ++ o :: back))
          (((β.withBuys []).withSells []).withSwaps (o :: back)) m')
      (fun _ _ => True) := by
  simp only [performToSwap, swapAt, Action.sat_bind, Action.sat_get,
    Action.sat_lift_of_ok (batch_eq_ok hβ)]
  apply (performBuys_sat hsep h hb hβ hc).mono ?_ fun _ _ (_ : Halted token b True m _ _) => trivial
  rintro _ m₁ ⟨hexec, -⟩
  apply (performSells_sat hsep h hb hβ hc hexec).mono ?_ fun _ _ _ => trivial
  rintro _ m₂ ⟨hexec, -⟩
  apply (performSwapsTo_sat (β := (β.withBuys []).withSells []) hsep (fun _ => rfl) hexec
    index).mono ?_ fun _ _ _ => trivial
  rintro _ m₃ ⟨front, front', back, -, -, hlength, ⟨reserve, -, -, hexec⟩, -⟩
  rw [Action.sat_lift_of_ok (batch_eq_ok hexec.batch), Action.sat_lift]
  refine ⟨fun o ho => ?_, fun _ _ => trivial⟩
  cases back with
  | nil => simp [Batch.orderAt, Batch.withSwaps, ← hlength, Fault.fail] at ho
  | cons o' back =>
      obtain rfl : o' = o := by simpa [Batch.orderAt, Batch.withSwaps, ← hlength] using ho
      exact ⟨_, reserve, front', back, hlength, hexec⟩

/-- Looking up a swap before it is executed makes no difference: where there is none, executing it
fails in the same way. -/
theorem swapAt_sat_iff {index : Nat} {is : List Nat} {Q : List Outcome → Market → Prop}
    {E : Error → Market → Prop} :
    (swapAt token index).Sat m
        (fun _ m' => (gather (performOpenSwap cfg token) (index :: is)).Sat m' Q E) E ↔
      (gather (performOpenSwap cfg token) (index :: is)).Sat m Q E := by
  simp only [swapAt, gather, performOpenSwap, Action.sat_bind, Action.sat_get]
  cases hbatch : m.store.batch token with
  | error e => simp only [Action.sat_lift_of_error rfl]
  | ok batch =>
      simp only [Action.sat_lift_of_ok rfl]
      cases horder : Batch.orderAt batch.swaps index with
      | error e => simp only [Action.sat_lift_of_error rfl]
      | ok o => simp only [Action.sat_lift_of_ok rfl, Action.sat_lift_of_ok hbatch, horder]

/-- Executing the orders of a batch is executing those before the swap at a place, and from there
that swap and those after it. -/
theorem performOrders_sat_iff (hβ : Table.get? m.store.batches token = some β) {index : Nat}
    (hindex : index < β.swaps.length) {Q : Market → Prop} {E : Error → Market → Prop} :
    (performOrders cfg token).Sat m (fun _ => Q) E ↔ (performToSwap cfg token index).Sat m
      (fun _ m₁ => (gather (performOpenSwap cfg token)
        (List.range' index (β.swaps.length - index))).Sat m₁ (fun _ => Q) E) E := by
  have hrange : List.range β.swaps.length =
      List.range index ++ List.range' index (β.swaps.length - index) := by
    have hsplit := List.range'_append_1 (s := 0) (m := index) (n := β.swaps.length - index)
    rw [zero_add, Nat.add_sub_cancel' hindex.le] at hsplit
    rw [List.range_eq_range', List.range_eq_range', hsplit]
  obtain ⟨k, hk⟩ : ∃ k, β.swaps.length - index = k + 1 := ⟨β.swaps.length - index - 1, by omega⟩
  simp only [performOrders, performToSwap, Action.sat_bind, Action.sat_get,
    Action.sat_lift_of_ok (batch_eq_ok hβ), hrange, Action.sat_gather_append, hk,
    List.range'_succ, Action.sat_pure, swapAt_sat_iff]

theorem exists_of_reachSwap {done : List Denom} {index : Nat} {o : SwapOrder}
    (hreach : reachSwap cfg done token index m = .ok o m') :
    ∃ ss m₀ b β, gather (elapseCycle cfg) done m = .ok ss m₀ ∧
      Table.get? m₀.store.bonds token = some b ∧ m₀.store.batch token = .ok β ∧
      ∀ os m₁, cancelUnfulfillable cfg token
          (m₀.withBatch token { β with blocksRemaining := β.blocksRemaining - 1 }) = .ok os m₁ →
        performToSwap cfg token index m₁ = .ok o m' := by
  obtain ⟨ss, m₀, hdone, hreach⟩ := Action.bind_eq_ok.1 hreach
  have hsat := (Action.sat_of_eq_ok (Q := fun o' m₁ => o' = o ∧ m₁ = m')
    (E := fun _ _ => False) hreach).2 ⟨rfl, rfl⟩
  simp only [Action.sat_bind, Action.sat_get] at hsat
  cases hβ : m₀.store.batch token with
  | error e => exact ((Action.sat_lift_of_error hβ).1 hsat).elim
  | ok β =>
      rw [Action.sat_lift_of_ok hβ] at hsat
      simp only [setBatch, Action.sat_modify] at hsat
      cases hb : m₀.store.bond token with
      | error e =>
          have hnone : (m₀.withBatch token { β with
            blocksRemaining := β.blocksRemaining - 1 }).store.bond token = .error e := hb
          simp only [cancelUnfulfillable, cancelUnaffordableBuys, Action.sat_bind,
            Action.sat_get] at hsat
          exact ((Action.sat_lift_of_error hnone).1 hsat).elim
      | ok b =>
          refine ⟨ss, m₀, b, β, hdone, get?_of_bond_eq_ok hb, hβ, fun os m₁ hrun => ?_⟩
          obtain ⟨_, _, hrun', rfl, rfl⟩ := ((Action.sat_of_eq_ok hrun).1 hsat).exists_ok
          exact hrun'

end Market

theorem CleanRun.cycles {cfg : Config} {bonded : Denom → Prop} {log : List Response}
    {m m' : Market} (h : CleanRun cfg bonded log m) {done : List Denom} {ss : List Settlement}
    (hdone : Market.gather (Market.elapseCycle cfg) done m = .ok ss m') :
    ∃ log', CleanRun cfg bonded log' m' := by
  induction done generalizing log m ss with
  | nil =>
      cases hdone
      exact ⟨log, h⟩
  | cons t done ih =>
      obtain ⟨s, m₁, hcycle, hrest⟩ := Action.bind_eq_ok.1 hdone
      obtain ⟨_, m₂, hothers, hsame⟩ := Action.bind_eq_ok.1 hrest
      obtain ⟨-, rfl⟩ := Action.pure_eq_ok.1 hsame
      obtain ⟨hsep, hsound⟩ := h.sound
      have hanswer : Market.handle cfg (.cycle t) m = .ok (.cycle s) m₁ :=
        Action.map_eq_ok.2 ⟨s, hcycle, rfl⟩
      obtain ⟨hsound', -⟩ := (Market.elapseCycle_sat hsep hsound t).of_ok hcycle
      exact ih (h.answered hanswer trivial hsound'.kept) hothers

theorem CleanRun.exists_reachSwap {cfg : Config} {bonded : Denom → Prop} {log : List Response}
    {m m₀ m' : Market} (h : CleanRun cfg bonded log m) {done : List Denom}
    {ss : List Settlement} (hdone : Market.gather (Market.elapseCycle cfg) done m = .ok ss m₀)
    {t : Denom} {s : Settlement} (hclose : Market.elapseCycle cfg t m₀ = .ok (some s) m')
    {β : Batch} (hβ : m₀.store.batch t = .ok β) {i : Nat} (hi : i < β.swaps.length) :
    ∃ o m₁, Market.reachSwap cfg done t i m = .ok o m₁ := by
  obtain ⟨_, hrun⟩ := h.cycles hdone
  obtain ⟨b, hb⟩ := Market.exists_bond_of_elapseCycle hclose
  obtain ⟨hbatch, hcounted, os, m₁, β', hpass, hswept⟩ := hrun.exists_swept hb hβ
  rcases (Market.elapseCycle_sat_of_close hb hbatch fun _ =>
    (Action.Sat.trivial _ _).recall).of_ok hclose with ⟨-, hnone, -⟩ | ⟨-, _, -, hclose, -⟩
  · cases hnone
  obtain ⟨_, _, hsettle, -⟩ := Action.bind_eq_ok.1 hclose
  have hsettled : (Market.settle cfg t).Sat _ (fun _ _ => True) fun _ _ => False :=
    (Action.sat_of_eq_ok hsettle).2 trivial
  rw [Market.settle, Action.sat_bind, Action.sat_of_eq_ok hpass] at hsettled
  simp only [Action.sat_bind, Action.sat_get,
    Action.sat_lift_of_ok (Market.batch_eq_ok hswept.batch)] at hsettled
  have hswaps : β'.swaps = β.swaps := by rw [hswept.same]; rfl
  obtain ⟨o, m₂, hturn, -⟩ := ((Market.performOrders_sat_iff (Q := fun _ => True) hswept.batch
    (hswaps ▸ hi)).1 (hsettled.imp fun _ _ _ => trivial)).exists_ok
  have hreach : (Market.reachSwap cfg done t i).Sat m (fun _ _ => True) fun _ _ => False := by
    simp only [Market.reachSwap, Action.sat_bind, Action.sat_of_eq_ok hdone, Action.sat_get,
      Action.sat_lift_of_ok hβ, Market.setBatch, Action.sat_modify]
    exact (Action.sat_of_eq_ok hpass).2 ((Action.sat_of_eq_ok hturn).2 trivial)
  obtain ⟨o, m₂, hreach, -⟩ := hreach.exists_ok
  exact ⟨o, m₂, hreach⟩

/-- In every run, wherever a close has come to the turn of a swap, nothing stops the swap, which is
open. Either it is filled: the escrow account, the reserve, the fee address and the owner have given
and got what they should, and the reserve in the ledger does not leave the sanity band. Or it is
cancelled, and its owner has got the input back. The fee address and the owner are users, who may be
one and the same. -/
theorem CleanRun.swaps_complete {cfg : Config} {bonded : Denom → Prop} {log : List Response}
    {m m₁ : Market} (h : CleanRun cfg bonded log m) {done : List Denom} {t : Denom} {i : Nat}
    {o : SwapOrder} (hreach : Market.reachSwap cfg done t i m = .ok o m₁) :
    ∃ b, m₁.store.bond? t = some b ∧ o.isOpen = true ∧ b.reserveAddress = reserveAccountFor t ∧
      cfg.IsUser b.feeAddress ∧ cfg.IsUser o.address ∧
      ∃ out m₂, Market.performSwap cfg t i m₁ = .ok out m₂ ∧
        (Market.SwapFilled cfg t b o out m₁ m₂ ∨ Market.SwapCancelled cfg t i b o out m₁ m₂) := by
  obtain ⟨ss, m₀, b, β, hdone, hb, hβ, hturn⟩ := Market.exists_of_reachSwap hreach
  obtain ⟨_, hrun⟩ := h.cycles hdone
  obtain ⟨-, -, os, m', β', hpass, hswept⟩ := hrun.exists_swept hb hβ
  have hsep := hrun.sound.1
  obtain ⟨_, _, front, back, rfl, hexec⟩ := (Market.performToSwap_sat hsep hswept.kept hswept.bond
    hswept.batch hswept.current i).of_ok (hturn os m' hpass)
  obtain ⟨supply, r, hb₁, -, hheld⟩ := hexec.held
  have ho := hheld.orders.swaps o List.mem_cons_self
  obtain ⟨out, m₂, hperformed, -, -, -, b', hb', hdone⟩ :=
    (Market.performSwap_sat hsep rfl (fun _ => rfl) hexec).exists_ok
  obtain rfl : b' = b.marked supply r := Option.some.inj (hb'.symm.trans hb₁)
  exact ⟨_, hb₁, ho.isOpen, hheld.formed.address, hheld.feeUser, ho.user, out, m₂, hperformed,
    hdone⟩

/-- A pool of two shares whose rate is to stay within ten percent of one, with two swaps that wait
for the next settlement: one of ten units, and one of nearly as many as there are in the pool. -/
def bandedEvents : List Event :=
  let funds : CoinEntries := [("res", some 20000), ("rez", some 10000)]
  let swap (amount : Nat) : Event := .request (.swap {
    swapper := "alice", bondToken := "abc", source := ⟨"res", amount⟩, toToken := "rez" })
  [.post (.mint "alice" funds),
    .request (.create {
      token := "abc"
      name := "n"
      description := "d"
      creator := "z"
      functionType := "swapper_function"
      parameters := []
      reserveTokens := ["res", "rez"]
      txFee := ⟨100000000000000000⟩
      exitFee := Dec.zero
      feeAddress := "fees"
      maxSupply := ⟨"abc", 1000⟩
      sanityRate := Dec.one
      sanityMargin := Dec.ofInt 10
      signers := ["z"] }),
    .request (.buy { buyer := "alice", amount := ⟨"abc", 2⟩, maxPrices := [("res", some 10000),
      ("rez", some 10000)] }),
    swap 10, swap 9000]

/-- The small swap gives eight units for nine and a fee. The large one would take the reserves out
of the band, and its input goes back. -/
theorem swaps_complete_banded :
    ∃ log m, CleanRun {} (· ∈ ["abc"]) log m ∧
      (∃ o m₁ b out m₂, Market.reachSwap {} [] "abc" 0 m = .ok o m₁ ∧
        m₁.store.bond? "abc" = some b ∧ Market.performSwap {} "abc" 0 m₁ = .ok out m₂ ∧
        out.returned = [("rez", 8)] ∧ out.fees = [("res", 1)] ∧
        Market.SwapFilled {} "abc" b o out m₁ m₂) ∧
      ∃ o m₁ b out m₂, Market.reachSwap {} [] "abc" 1 m = .ok o m₁ ∧
        m₁.store.bond? "abc" = some b ∧ Market.performSwap {} "abc" 1 m₁ = .ok out m₂ ∧
        out.returned = [("res", 9000)] ∧ Market.SwapCancelled {} "abc" 1 b o out m₁ m₂ := by
  obtain ⟨log, m, hrun, hcheck⟩ := CleanRun.exists_of_playClean ["abc"] bandedEvents
    (fun m => decide <|
      (Market.reachSwap {} [] "abc" 0).Sat m
        (fun _ m₁ => (Market.performSwap {} "abc" 0).Sat m₁
          (fun out _ => out.isFill = true ∧ out.returned = [("rez", 8)] ∧
            out.fees = [("res", 1)]) fun _ _ => False) (fun _ _ => False) ∧
      (Market.reachSwap {} [] "abc" 1).Sat m
        (fun _ m₁ => (Market.performSwap {} "abc" 1).Sat m₁
          (fun out _ => out.isFill = false ∧ out.returned = [("res", 9000)]) fun _ _ => False)
        fun _ _ => False)
    (by decide +kernel)
  obtain ⟨hsmall, hlarge⟩ := of_decide_eq_true hcheck
  obtain ⟨o, m₁, hreach, hsmall⟩ := hsmall.exists_ok
  obtain ⟨b, hb, -, -, -, -, out, m₂, hperform, hdone⟩ := hrun.swaps_complete hreach
  obtain ⟨hfill, hreturned, hfees⟩ := hsmall.of_ok hperform
  obtain ⟨o', m₁', hreach', hlarge⟩ := hlarge.exists_ok
  obtain ⟨b', hb', -, -, -, -, out', m₂', hperform', hdone'⟩ := hrun.swaps_complete hreach'
  obtain ⟨hcancel, hreturned'⟩ := hlarge.of_ok hperform'
  refine ⟨log, m, hrun, ⟨o, m₁, b, out, m₂, hreach, hb, hperform, hreturned, hfees, ?_⟩, o', m₁',
    b', out', m₂', hreach', hb', hperform', hreturned', ?_⟩
  · refine hdone.resolve_right fun hcancelled => ?_
    obtain ⟨_, _, -, rfl, -⟩ := hcancelled.turnedDown
    cases hfill
  · refine hdone'.resolve_left fun hfilled => ?_
    obtain ⟨_, -, rfl⟩ := hfilled.planned
    cases hcancel

end BondMarket
