import BondMarket.Proofs.Coins

/-!
What calls of the ledger do to balances and totals. A call has a *flow*, the change of every
balance, and *makes* an amount of every denomination, which is negative where it destroys. Both
add up over a list of moves, and no balance falls below zero.

A call whose coins are proper is refused only for want of funds. A move that is refused is a fatal
error, which names what the move was for; moves that each find what they take are carried out.
-/

namespace BondMarket

/-- No balance is negative. -/
def Ledger.Solvent (l : Ledger) : Prop := ∀ a d, 0 ≤ l.balanceOf a d

def CoinEntries.amountOf (es : CoinEntries) (d : Denom) : Int :=
  match Coins.ofEntries es with
  | .ok c => c.amountOf d
  | .error _ => 0

theorem CoinEntries.amountOf_of_ok {es : CoinEntries} {c : Coins} (h : Coins.ofEntries es = .ok c)
    (d : Denom) : es.amountOf d = c.amountOf d := by
  simp [CoinEntries.amountOf, h]

theorem CoinEntries.amountOf_entries {c : Coins} (h : c.Proper) (d : Denom) :
    CoinEntries.amountOf c.entries d = c.amountOf d := by
  obtain ⟨c', hc', -, hamount⟩ := Coins.normalize_spec h
  rw [CoinEntries.amountOf_of_ok hc', hamount]

theorem CoinEntries.amountOf_of_not_mem {es : CoinEntries} {d : Denom}
    (h : d ∉ Table.keys es) : es.amountOf d = 0 := by
  unfold CoinEntries.amountOf
  split
  · rename_i c hc
    obtain ⟨t, ht, rfl⟩ := Coins.ofEntries_eq_ok hc
    refine Coins.amountOf_of_not_mem fun hd => h ?_
    obtain ⟨p, hp, rfl⟩ := List.mem_map.1 hd
    have hkey := Table.mem_keys_of_mem (List.mem_filter.1 hp).1
    rw [Table.keys_traverse ht] at hkey
    exact ((Table.sorted_perm es).map _).mem_iff.1 hkey
  · rfl

namespace Ledger

variable {l : Ledger} {c : Coins}

@[simp] theorem totalSupply_foldl_put (f : Ledger → Denom × Int → Int) (a : Account) (c : Coins)
    (l : Ledger) (d : Denom) :
    (c.foldl (fun l p => l.put a p.1 (f l p)) l).totalSupply d = l.totalSupply d := by
  induction c generalizing l with
  | nil => rfl
  | cons p c ih => rw [List.foldl_cons, ih, totalSupply_put]

theorem balanceOf_credit (hc : (Table.keys c).Nodup) (l : Ledger) (a a' : Account) (d : Denom) :
    (l.credit a c).balanceOf a' d = l.balanceOf a' d + if a = a' then c.amountOf d else 0 := by
  unfold credit
  induction c generalizing l with
  | nil => simp
  | cons p c ih =>
      obtain ⟨hp, hc⟩ := Table.nodup_keys_cons.1 hc
      rw [List.foldl_cons, ih hc, balanceOf_put, Coins.amountOf_cons]
      by_cases ha : a = a'
      · subst ha
        by_cases hd : p.1 = d
        · subst hd
          simp [Coins.amountOf_of_not_mem hp]
        · simp [hd]
      · simp [ha]

theorem balanceOf_debit (hc : (Table.keys c).Nodup) (l : Ledger) (a a' : Account) (d : Denom) :
    (l.debit a c).balanceOf a' d = l.balanceOf a' d - if a = a' then c.amountOf d else 0 := by
  unfold debit
  induction c generalizing l with
  | nil => simp
  | cons p c ih =>
      obtain ⟨hp, hc⟩ := Table.nodup_keys_cons.1 hc
      rw [List.foldl_cons, ih hc, balanceOf_put, Coins.amountOf_cons]
      by_cases ha : a = a'
      · subst ha
        by_cases hd : p.1 = d
        · subst hd
          simp [Coins.amountOf_of_not_mem hp]
        · simp [hd]
      · simp [ha]

theorem covers_iff_amounts (hl : l.Solvent) (hc : c.Proper) (a : Account) :
    l.covers a c = .ok () ↔ ∀ d, c.amountOf d ≤ l.balanceOf a d := by
  rw [covers_eq_ok_iff]
  constructor
  · intro h d
    by_cases hd : d ∈ Table.keys c
    · obtain ⟨n, hn⟩ := Table.mem_keys_iff.1 hd
      have hmem := Table.mem_of_get? hn
      rw [Coins.amountOf_of_mem hc.distinct hmem]
      exact h _ hmem
    · rw [Coins.amountOf_of_not_mem hd]
      exact hl a d
  · intro h p hp
    rw [← Coins.amountOf_of_mem hc.distinct hp]
    exact h p.1

theorem covers_error {a : Account} {e : Error} (h : l.covers a c = .error e) :
    e.isRejection = true := by
  induction c with
  | nil => cases h
  | cons p c ih =>
      simp only [covers] at h
      split at h
      · cases h
        rfl
      · exact ih h

end Ledger

namespace LedgerCall

def entries : LedgerCall → CoinEntries
  | mint _ es | burn _ es | transfer _ _ es => es

def payer : LedgerCall → Option Account
  | mint _ _ => none
  | burn a _ | transfer a _ _ => some a

def flow (a : Account) (d : Denom) : LedgerCall → Int
  | mint x es => if x = a then es.amountOf d else 0
  | burn x es => -if x = a then es.amountOf d else 0
  | transfer x y es =>
    (if y = a then es.amountOf d else 0) - if x = a then es.amountOf d else 0

def made (d : Denom) : LedgerCall → Int
  | mint _ es => es.amountOf d
  | burn _ es => -es.amountOf d
  | transfer _ _ _ => 0

def Covered (bal : Account → Denom → Int) : LedgerCall → Prop
  | mint _ _ => True
  | burn x es | transfer x _ es => ∀ d, es.amountOf d ≤ bal x d

/-- The coins of a call are integers, not negative, and of distinct denominations. -/
def Proper (call : LedgerCall) : Prop :=
  ∃ c, Coins.ofEntries call.entries = .ok c ∧ c.Proper

end LedgerCall

theorem LedgerCall.Proper.of_ok {call : LedgerCall} (h : call.Proper) {c : Coins}
    (hc : Coins.ofEntries call.entries = .ok c) : c.Proper := by
  obtain ⟨c', hc', hproper⟩ := h
  cases hc.symm.trans hc'
  exact hproper

theorem Coins.Proper.ofEntries_entries {c : Coins} (h : c.Proper) :
    ∃ c', Coins.ofEntries c.entries = .ok c' ∧ c'.Proper :=
  (Coins.normalize_spec h).imp fun _ h => ⟨h.1, h.2.1⟩

namespace Ledger

/-- A ledger after a call, which has changed the balances and totals by what the call says. -/
structure Ran (l l' : Ledger) (call : LedgerCall) : Prop where
  balance : ∀ a d, l'.balanceOf a d = l.balanceOf a d + call.flow a d
  total : ∀ d, l'.totalSupply d = l.totalSupply d + call.made d
  solvent : l'.Solvent

variable {l l' : Ledger} {c : Coins} {es : CoinEntries}

theorem ran_mint (hl : l.Solvent) (hc : Coins.ofEntries es = .ok c) (hproper : c.Proper)
    (x : Account) : l.Ran ((l.credit x c).raiseTotals c) (.mint x es) := by
  have hbalance : ∀ a d, ((l.credit x c).raiseTotals c).balanceOf a d =
      l.balanceOf a d + LedgerCall.flow a d (.mint x es) := by
    intro a d
    rw [LedgerCall.flow, CoinEntries.amountOf_of_ok hc]
    exact balanceOf_credit hproper.distinct l x a d
  refine ⟨hbalance, fun d => ?_, fun a d => ?_⟩
  · rw [LedgerCall.made, CoinEntries.amountOf_of_ok hc]
    show Coins.amountOf _ d = _
    rw [raiseTotals, Coins.amountOf_addEntries _ _ _ hproper.distinct]
    exact congrArg (· + c.amountOf d) (totalSupply_foldl_put _ _ _ _ _)
  · rw [hbalance, LedgerCall.flow, CoinEntries.amountOf_of_ok hc]
    have := hl a d
    have := hproper.amountOf_nonneg d
    split <;> omega

theorem ran_burn (hl : l.Solvent) (hc : Coins.ofEntries es = .ok c) (hproper : c.Proper)
    {x : Account} (hcovers : l.covers x c = .ok ()) :
    l.Ran ((l.debit x c).lowerTotals c) (.burn x es) := by
  have hbalance : ∀ a d, ((l.debit x c).lowerTotals c).balanceOf a d =
      l.balanceOf a d + LedgerCall.flow a d (.burn x es) := by
    intro a d
    rw [LedgerCall.flow, CoinEntries.amountOf_of_ok hc, ← Int.sub_eq_add_neg]
    exact balanceOf_debit hproper.distinct l x a d
  refine ⟨hbalance, fun d => ?_, fun a d => ?_⟩
  · -- Totals are lowered by adding the coins with their signs turned.
    have hkeys : (Table.keys (Table.mapValues (fun _ n => -n) c)).Nodup := by
      simpa using hproper.distinct
    have hminus : Coins.amountOf (Table.mapValues (fun _ n => -n) c) d = -c.amountOf d := by
      rw [Coins.amountOf_mapValues, Coins.amountOf]
      cases Table.get? c d <;> simp
    rw [LedgerCall.made, CoinEntries.amountOf_of_ok hc]
    show Coins.amountOf _ d = _
    rw [lowerTotals, Coins.amountOf_addEntries _ _ _ hkeys, hminus]
    exact congrArg (· + -c.amountOf d) (totalSupply_foldl_put _ _ _ _ _)
  · rw [hbalance, LedgerCall.flow, CoinEntries.amountOf_of_ok hc]
    have := hl a d
    have := (covers_iff_amounts hl hproper x).1 hcovers d
    split
    · subst a
      omega
    · omega

theorem ran_transfer (hl : l.Solvent) (hc : Coins.ofEntries es = .ok c) (hproper : c.Proper)
    {x : Account} (hcovers : l.covers x c = .ok ()) (y : Account) :
    l.Ran ((l.debit x c).credit y c) (.transfer x y es) := by
  have hbalance : ∀ a d, ((l.debit x c).credit y c).balanceOf a d =
      l.balanceOf a d + LedgerCall.flow a d (.transfer x y es) := by
    intro a d
    rw [LedgerCall.flow, CoinEntries.amountOf_of_ok hc, balanceOf_credit hproper.distinct,
      balanceOf_debit hproper.distinct]
    ring
  refine ⟨hbalance, fun d => ?_, fun a d => ?_⟩
  · rw [LedgerCall.made, credit, totalSupply_foldl_put, debit, totalSupply_foldl_put, add_zero]
  · rw [hbalance, LedgerCall.flow, CoinEntries.amountOf_of_ok hc]
    have := hl a d
    have := hproper.amountOf_nonneg d
    have := (covers_iff_amounts hl hproper x).1 hcovers d
    by_cases hx : x = a
    · subst hx
      rw [if_pos rfl]
      split <;> omega
    · rw [if_neg hx]
      split <;> omega

theorem run_spec (call : LedgerCall) (hl : l.Solvent)
    (hp : ∀ c, Coins.ofEntries call.entries = .ok c → c.Proper) (h : l.run call = .ok l') :
    l.Ran l' call := by
  cases call with
  | mint x es =>
      simp only [run, mint, Result.bind_eq_ok] at h
      obtain ⟨c, hc, h⟩ := h
      cases h
      exact ran_mint hl hc (hp c hc) x
  | burn x es =>
      simp only [run, burn, Result.bind_eq_ok] at h
      obtain ⟨c, hc, _, hcovers, h⟩ := h
      cases h
      exact ran_burn hl hc (hp c hc) hcovers
  | transfer x y es =>
      simp only [run, transfer, Result.bind_eq_ok] at h
      obtain ⟨c, hc, _, hcovers, h⟩ := h
      cases h
      exact ran_transfer hl hc (hp c hc) hcovers y

end Ledger

theorem Ledger.covers_of_covered {l : Ledger} (hl : l.Solvent) {es : CoinEntries} {c : Coins}
    (hc : Coins.ofEntries es = .ok c) (hproper : c.Proper) {x : Account}
    (h : ∀ d, es.amountOf d ≤ l.balanceOf x d) : l.covers x c = .ok () := by
  rw [covers_iff_amounts hl hproper]
  exact fun d => CoinEntries.amountOf_of_ok hc d ▸ h d

/-- Proper coins are refused only for want of funds. -/
theorem Ledger.run_error {l : Ledger} (hl : l.Solvent) {call : LedgerCall} (hp : call.Proper)
    {e : Error} (h : l.run call = .error e) :
    e.isRejection = true ∧ ¬ call.Covered l.balanceOf := by
  obtain ⟨c, hc, hproper⟩ := hp
  cases call with
  | mint x es =>
      simp only [LedgerCall.entries] at hc
      simp [run, mint, hc] at h
  | burn x es =>
      simp only [LedgerCall.entries] at hc
      simp only [run, burn, hc, Result.ok_bind] at h
      cases hcov : l.covers x c with
      | ok u => simp [hcov] at h
      | error e' =>
          rw [hcov] at h
          cases h
          refine ⟨covers_error hcov, fun hcovered => ?_⟩
          cases hcov.symm.trans (covers_of_covered hl hc hproper hcovered)
  | transfer x y es =>
      simp only [LedgerCall.entries] at hc
      simp only [run, transfer, hc, Result.ok_bind] at h
      cases hcov : l.covers x c with
      | ok u => simp [hcov] at h
      | error e' =>
          rw [hcov] at h
          cases h
          refine ⟨covers_error hcov, fun hcovered => ?_⟩
          cases hcov.symm.trans (covers_of_covered hl hc hproper hcovered)

/-! ### Moves -/

namespace Move

def flow (a : Account) (d : Denom) (vs : List Move) : Int := (vs.map fun v => v.call.flow a d).sum

def made (d : Denom) (vs : List Move) : Int := (vs.map fun v => v.call.made d).sum

@[simp] theorem flow_nil (a : Account) (d : Denom) : flow a d [] = 0 := rfl

@[simp] theorem flow_cons (a : Account) (d : Denom) (v : Move) (vs : List Move) :
    flow a d (v :: vs) = v.call.flow a d + flow a d vs := List.sum_cons

@[simp] theorem flow_append (a : Account) (d : Denom) (vs ws : List Move) :
    flow a d (vs ++ ws) = flow a d vs + flow a d ws := by
  simp [flow, List.sum_append]

@[simp] theorem made_nil (d : Denom) : made d [] = 0 := rfl

@[simp] theorem made_cons (d : Denom) (v : Move) (vs : List Move) :
    made d (v :: vs) = v.call.made d + made d vs := List.sum_cons

@[simp] theorem made_append (d : Denom) (vs ws : List Move) :
    made d (vs ++ ws) = made d vs + made d ws := by
  simp [made, List.sum_append]

/-- Each move in turn finds what it takes, where balances change by the flows of those before. -/
def Covered (bal : Account → Denom → Int) : List Move → Prop
  | [] => True
  | v :: vs => v.call.Covered bal ∧ Covered (fun a d => bal a d + v.call.flow a d) vs

theorem covered_append {bal : Account → Denom → Int} {vs ws : List Move} :
    Covered bal (vs ++ ws) ↔
      Covered bal vs ∧ Covered (fun a d => bal a d + flow a d vs) ws := by
  induction vs generalizing bal with
  | nil => simp [Covered]
  | cons v vs ih => simp only [List.cons_append, Covered, ih, flow_cons, and_assoc, add_assoc]

theorem flow_transferIfAny {c : Coins} (hc : c.Proper) (purpose : Purpose) (x y a : Account)
    (d : Denom) : flow a d (transferIfAny purpose x y c) =
      (if y = a then c.amountOf d else 0) - if x = a then c.amountOf d else 0 := by
  unfold transferIfAny
  split
  · rename_i hnil
    simp [hnil]
  · simp [LedgerCall.flow, CoinEntries.amountOf_entries hc]

@[simp] theorem made_transferIfAny (purpose : Purpose) (x y : Account) (c : Coins) (d : Denom) :
    made d (transferIfAny purpose x y c) = 0 := by
  unfold transferIfAny
  split <;> simp [LedgerCall.made]

theorem made_of_mem_transferIfAny {purpose : Purpose} {x y : Account} {c : Coins} {v : Move}
    (hv : v ∈ transferIfAny purpose x y c) (d : Denom) : v.call.made d = 0 := by
  unfold transferIfAny at hv
  split at hv
  · cases hv
  · rw [List.mem_singleton.1 hv]
    rfl

theorem covered_transferIfAny {c : Coins} (hc : c.Proper) (purpose : Purpose) (x y : Account)
    {bal : Account → Denom → Int} (h : ∀ d, c.amountOf d ≤ bal x d) :
    Covered bal (transferIfAny purpose x y c) := by
  unfold transferIfAny
  split
  · trivial
  · exact ⟨fun d => CoinEntries.amountOf_entries hc d ▸ h d, trivial⟩

theorem purpose_of_mem_transferIfAny {purpose : Purpose} {x y : Account} {c : Coins} {v : Move}
    (hv : v ∈ transferIfAny purpose x y c) : v.purpose = purpose := by
  unfold transferIfAny at hv
  split at hv
  · cases hv
  · rw [List.mem_singleton.1 hv]

theorem proper_transferIfAny {c : Coins} (hc : c.Proper) (purpose : Purpose) (x y : Account) :
    ∀ v ∈ transferIfAny purpose x y c, v.call.Proper := by
  intro v hv
  unfold transferIfAny at hv
  split at hv
  · cases hv
  · rw [List.mem_singleton.1 hv]
    exact hc.ofEntries_entries

end Move

def Purpose.Failed (purpose : Purpose) (e : Error) : Prop :=
  ∃ e₀ : Error, e₀.isRejection = true ∧ e = e₀.escalate purpose.text

theorem Purpose.Failed.eq {purpose : Purpose} {e : Error} (h : purpose.Failed e) :
    ∃ detail : String, e = .violated [s!"{purpose.text} failed: {detail}"] := by
  obtain ⟨e₀, he₀, rfl⟩ := h
  exact ⟨e₀.message, if_pos he₀⟩

theorem Purpose.Failed.isFatal {purpose : Purpose} {e : Error} (h : purpose.Failed e) :
    e.isFatal = true := by
  obtain ⟨detail, rfl⟩ := h.eq
  rfl

theorem Move.isFatal_of_failed {e : Error} {vs : List Move}
    (h : ∃ v ∈ vs, v.purpose.Failed e) : e.isFatal = true := by
  obtain ⟨v, -, hfailed⟩ := h
  exact hfailed.isFatal

namespace Market

/-- The market after coins were moved: balances have changed by a flow and totals by what was made,
no balance is negative, and nothing else is different. -/
structure Posted (m m' : Market) (flow : Account → Denom → Int) (made : Denom → Int) : Prop where
  store : m'.store = m.store
  refusals : m'.refusals = m.refusals
  balance : ∀ a d, m'.ledger.balanceOf a d = m.ledger.balanceOf a d + flow a d
  total : ∀ d, m'.ledger.totalSupply d = m.ledger.totalSupply d + made d
  solvent : m'.ledger.Solvent

variable {m : Market}

/-- A call, if it is not refused. A call that is refused leaves the market as it was. -/
theorem call_sat (hr : m.refusals = {}) (hl : m.ledger.Solvent) {c : LedgerCall}
    (hp : ∀ cs, Coins.ofEntries c.entries = .ok cs → cs.Proper) :
    (call c).Sat m (fun _ m' => m.Posted m' (fun a d => c.flow a d) (fun d => c.made d))
      (fun e m' => m' = m ∧ m.ledger.run c = .error e) := by
  have hcount : m.refusals.count c.method = (false, m.refusals) := by
    rw [hr]
    cases c <;> rfl
  unfold Action.Sat call
  simp only [hcount, if_false, Bool.false_eq_true]
  cases hrun : m.ledger.run c with
  | error e => exact ⟨rfl, rfl⟩
  | ok l =>
      obtain ⟨hbalance, htotal, hsolvent⟩ := Ledger.run_spec _ hl hp hrun
      exact ⟨rfl, rfl, hbalance, htotal, hsolvent⟩

theorem Posted.refl (hl : m.ledger.Solvent) : m.Posted m (fun _ _ => 0) (fun _ => 0) :=
  ⟨rfl, rfl, fun _ _ => (add_zero _).symm, fun _ => (add_zero _).symm, hl⟩

theorem Posted.bond {m m' : Market} {flow : Account → Denom → Int} {made : Denom → Int}
    (h : m.Posted m' flow made) {t : Denom} {b : Bond} (hb : Table.get? m.store.bonds t = some b) :
    Table.get? m'.store.bonds t = some b := by
  rw [h.store]
  exact hb

theorem Posted.batch {m m' : Market} {flow : Account → Denom → Int} {made : Denom → Int}
    (h : m.Posted m' flow made) {t : Denom} {β : Batch}
    (hβ : Table.get? m.store.batches t = some β) : Table.get? m'.store.batches t = some β := by
  rw [h.store]
  exact hβ

theorem Posted.trans {m₁ m₂ : Market} {flow flow' : Account → Denom → Int}
    {made made' : Denom → Int} (h : m.Posted m₁ flow made) (h' : m₁.Posted m₂ flow' made') :
    m.Posted m₂ (fun a d => flow a d + flow' a d) (fun d => made d + made' d) where
  store := h'.store.trans h.store
  refusals := h'.refusals.trans h.refusals
  balance a d := by rw [h'.balance, h.balance, add_assoc]
  total d := by rw [h'.total, h.total, add_assoc]
  solvent := h'.solvent

theorem carryOut_sat (hr : m.refusals = {}) (hl : m.ledger.Solvent) {v : Move}
    (hv : v.call.Proper) :
    (carryOut v).Sat m
      (fun _ m' => m.Posted m' (fun a d => v.call.flow a d) (fun d => v.call.made d))
      (fun e m' => m' = m ∧ v.purpose.Failed e ∧ ¬ v.call.Covered m.ledger.balanceOf) := by
  have hcall := call_sat hr hl (c := v.call) fun _ => hv.of_ok
  unfold Action.Sat at hcall ⊢
  unfold carryOut
  cases hres : call v.call m with
  | ok u m' => simpa only [hres] using hcall
  | error e m' =>
      simp only [hres] at hcall ⊢
      obtain ⟨hrejected, huncovered⟩ := Ledger.run_error hl hv hcall.2
      exact ⟨hcall.1, ⟨e, hrejected, rfl⟩, huncovered⟩

/-- Moves add up. If one of them fails, it has not found what it takes, the error names its purpose,
and only what moves make is changed in the totals. -/
theorem carryOutAll_sat (hr : m.refusals = {}) (hl : m.ledger.Solvent) {vs : List Move}
    (hv : ∀ v ∈ vs, v.call.Proper) :
    (carryOutAll vs).Sat m
      (fun _ m' => m.Posted m' (fun a d => Move.flow a d vs) (fun d => Move.made d vs))
      (fun e m' => ((∃ v ∈ vs, v.purpose.Failed e) ∧ ¬ Move.Covered m.ledger.balanceOf vs) ∧
        ∀ d, (∀ v ∈ vs, v.call.made d = 0) →
          m'.ledger.totalSupply d = m.ledger.totalSupply d) := by
  induction vs generalizing m with
  | nil => exact Posted.refl hl
  | cons v vs ih =>
      rw [carryOutAll, Action.sat_bind]
      refine (carryOut_sat hr hl (hv v List.mem_cons_self)).mono (fun _ m₁ h₁ => ?_) ?_
      · have hrest := ih (h₁.refusals.trans hr) h₁.solvent
          fun w hw => hv w (List.mem_cons_of_mem _ hw)
        refine hrest.mono (fun _ m' h => h₁.trans h) fun e m' h => ?_
        obtain ⟨⟨⟨w, hw, hfailed⟩, huncovered⟩, htotal⟩ := h
        have hbalance : m₁.ledger.balanceOf =
            fun a d => m.ledger.balanceOf a d + v.call.flow a d := by
          funext a d
          exact h₁.balance a d
        refine ⟨⟨⟨w, List.mem_cons_of_mem _ hw, hfailed⟩, fun hcovered => ?_⟩, fun d hd => ?_⟩
        · exact huncovered (hbalance ▸ hcovered.2)
        · rw [htotal d fun w hw => hd w (List.mem_cons_of_mem _ hw), h₁.total,
            hd v List.mem_cons_self, add_zero]
      · -- A first move that fails has changed nothing.
        rintro e m' ⟨rfl, hfailed, huncovered⟩
        exact ⟨⟨⟨v, List.mem_cons_self, hfailed⟩, fun hcovered => huncovered hcovered.1⟩,
          fun _ _ => rfl⟩

theorem carryOutAll_covered (hr : m.refusals = {}) (hl : m.ledger.Solvent) {vs : List Move}
    (hv : ∀ v ∈ vs, v.call.Proper) (hcovered : Move.Covered m.ledger.balanceOf vs) :
    (carryOutAll vs).Sat m
      (fun _ m' => m.Posted m' (fun a d => Move.flow a d vs) (fun d => Move.made d vs))
      (fun _ _ => False) :=
  (carryOutAll_sat hr hl hv).mono (fun _ _ h => h) fun _ _ h => h.1.2 hcovered

theorem transferIfAny_sat (hr : m.refusals = {}) (hl : m.ledger.Solvent) {c : Coins}
    (hc : c.Proper) (purpose : Purpose) {x : Account} (y : Account)
    (hcovers : ∀ d, c.amountOf d ≤ m.ledger.balanceOf x d) :
    (carryOutAll (Move.transferIfAny purpose x y c)).Sat m
      (fun _ m' => m.Posted m'
        (fun a d => Move.flow a d (Move.transferIfAny purpose x y c)) (fun _ => 0))
      (fun _ _ => False) := by
  have hsat := carryOutAll_covered hr hl (Move.proper_transferIfAny hc purpose x y)
    (Move.covered_transferIfAny hc purpose x y hcovers)
  simpa only [Move.made_transferIfAny] using hsat

end Market
end BondMarket
