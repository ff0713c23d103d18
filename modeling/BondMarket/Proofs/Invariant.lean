import BondMarket.Proofs.Accounts
import BondMarket.Proofs.Plans
import BondMarket.Proofs.Postings
import Mathlib.Algebra.Order.BigOperators.Group.List

/-!
What holds of a market in every state that requests can lead to.

`Market.Kept` is the part that every single move of a settlement keeps: the orders are formed and
add up to the totals, the supply covers the pending sells and leaves room for the pending buys,
store and ledger agree on the supply and the reserve of every bond, and the escrow account holds
what the batches say. `Market.Sound` adds what holds between settlements: the prices of a batch
are those of its totals, and the reserve backs the supply.

An action works on one bond. `Market.Apart` says that it leaves all else alone, and
`Market.Kept.exchange` that it then suffices to look at that bond and its batch.
-/

namespace BondMarket

/-! ### Orders and batches -/

/-- A buy as it is admitted. -/
structure BuyOrder.Formed (cfg : Config) (token : Denom) (o : BuyOrder) : Prop where
  user : cfg.IsUser o.address
  size_pos : 0 < o.size
  denom : o.amount.denom = token
  maxPrices : o.maxPrices.Proper

/-- A sell or a swap as it is admitted. Until its batch is settled nothing cancels it. -/
structure Order.Formed (cfg : Config) (o : Order) : Prop where
  user : cfg.IsUser o.address
  size_pos : 0 < o.size
  isOpen : o.isOpen = true

def openSum {α : Type} (isOpen : α → Bool) (f : α → Int) (orders : List α) : Int :=
  ((orders.filter isOpen).map f).sum

section OpenSum

variable {α : Type} {isOpen : α → Bool} {f : α → Int}

@[simp] theorem openSum_nil : openSum isOpen f [] = 0 := rfl

@[simp] theorem openSum_cons (o : α) (orders : List α) :
    openSum isOpen f (o :: orders) = (if isOpen o then f o else 0) + openSum isOpen f orders := by
  unfold openSum
  cases h : isOpen o <;> simp [h]

@[simp] theorem openSum_append (xs ys : List α) :
    openSum isOpen f (xs ++ ys) = openSum isOpen f xs + openSum isOpen f ys := by
  simp [openSum]

theorem openSum_perm {xs ys : List α} (h : xs.Perm ys) :
    openSum isOpen f xs = openSum isOpen f ys :=
  ((h.filter isOpen).map f).sum_eq

theorem openSum_nonneg {orders : List α} (h : ∀ o ∈ orders, 0 ≤ f o) :
    0 ≤ openSum isOpen f orders := by
  refine List.sum_nonneg fun n hn => ?_
  obtain ⟨o, ho, rfl⟩ := List.mem_map.1 hn
  exact h o (List.mem_filter.1 ho).1

theorem le_openSum {orders : List α} (h : ∀ o ∈ orders, 0 ≤ f o) {o : α} (ho : o ∈ orders)
    (hopen : isOpen o = true) : f o ≤ openSum isOpen f orders := by
  refine List.single_le_sum (fun n hn => ?_) _ (List.mem_map_of_mem (List.mem_filter.2 ⟨ho, hopen⟩))
  obtain ⟨o, ho, rfl⟩ := List.mem_map.1 hn
  exact h o (List.mem_filter.1 ho).1

end OpenSum

namespace Batch

abbrev buySizes (orders : List BuyOrder) : Int :=
  openSum (fun o => o.isOpen) (fun o => o.size) orders

abbrev sellSizes (orders : List SellOrder) : Int :=
  openSum (fun o => o.isOpen) (fun o => o.size) orders

abbrev buyPledges (orders : List BuyOrder) (d : Denom) : Int :=
  openSum (fun o => o.isOpen) (fun o => o.maxPrices.amountOf d) orders

abbrev swapPledges (orders : List SwapOrder) (d : Denom) : Int :=
  openSum (fun o => o.isOpen) (fun o => o.amount.toCoins.amountOf d) orders

/-- The orders of a batch are formed, and the totals are those of the open ones. -/
structure Formed (cfg : Config) (token : Denom) (β : Batch) : Prop where
  buys : ∀ o ∈ β.buys, o.Formed cfg token
  sells : ∀ o ∈ β.sells, o.Formed cfg
  swaps : ∀ o ∈ β.swaps, o.toOrder.Formed cfg
  totalBuy : β.totalBuy = buySizes β.buys
  totalSell : β.totalSell = sellSizes β.sells

def pledged (β : Batch) (d : Denom) : Int := buyPledges β.buys d + swapPledges β.swaps d

variable {cfg : Config} {token : Denom} {β : Batch}

theorem Formed.totalBuy_nonneg (h : β.Formed cfg token) : 0 ≤ β.totalBuy :=
  h.totalBuy ▸ openSum_nonneg fun o ho => (h.buys o ho).size_pos.le

theorem Formed.totalSell_nonneg (h : β.Formed cfg token) : 0 ≤ β.totalSell :=
  h.totalSell ▸ openSum_nonneg fun o ho => (h.sells o ho).size_pos.le

/-- Nothing cancels a sell or a swap before its batch is settled. -/
theorem Formed.openSells_eq (h : β.Formed cfg token) : β.openSells = β.sells :=
  List.filter_eq_self.2 fun o ho => (h.sells o ho).isOpen

theorem Formed.openSwaps_eq (h : β.Formed cfg token) : β.openSwaps = β.swaps :=
  List.filter_eq_self.2 fun o ho => (h.swaps o ho).isOpen

theorem Formed.pledged_nonneg (h : β.Formed cfg token) (d : Denom) : 0 ≤ β.pledged d :=
  add_nonneg
    (openSum_nonneg fun o ho => (h.buys o ho).maxPrices.amountOf_nonneg d)
    (openSum_nonneg fun o _ => (Coin.proper_toCoins o.amount).amountOf_nonneg d)

theorem Formed.size_le_totalBuy (h : β.Formed cfg token) {o : BuyOrder} (ho : o ∈ β.buys)
    (hopen : o.isOpen = true) : o.size ≤ β.totalBuy :=
  h.totalBuy ▸ le_openSum (fun o ho => (h.buys o ho).size_pos.le) ho hopen

theorem Formed.size_le_totalSell (h : β.Formed cfg token) {o : SellOrder} (ho : o ∈ β.sells)
    (hopen : o.isOpen = true) : o.size ≤ β.totalSell :=
  h.totalSell ▸ le_openSum (fun o ho => (h.sells o ho).size_pos.le) ho hopen

theorem Formed.openBuys_eq_nil (h : β.Formed cfg token) (htotal : β.totalBuy = 0) :
    β.openBuys = [] := by
  refine List.eq_nil_iff_forall_not_mem.2 fun o ho => ?_
  obtain ⟨ho, hopen⟩ := List.mem_filter.1 ho
  have hsize := h.size_le_totalBuy ho hopen
  have hpos := (h.buys o ho).size_pos
  omega

theorem Formed.openSells_eq_nil (h : β.Formed cfg token) (htotal : β.totalSell = 0) :
    β.openSells = [] := by
  refine List.eq_nil_iff_forall_not_mem.2 fun o ho => ?_
  obtain ⟨ho, hopen⟩ := List.mem_filter.1 ho
  have hsize := h.size_le_totalSell ho hopen
  have hpos := (h.sells o ho).size_pos
  omega

theorem Formed.total_pos_of_buy (h : β.Formed cfg token) {o : BuyOrder} (ho : o ∈ β.openBuys) :
    0 < β.totalBuy + β.totalSell := by
  obtain ⟨ho, hopen⟩ := List.mem_filter.1 ho
  have hle := h.size_le_totalBuy ho hopen
  have hpos := (h.buys o ho).size_pos
  have hsell := h.totalSell_nonneg
  omega

theorem Formed.total_pos_of_sell (h : β.Formed cfg token) {o : SellOrder}
    (ho : o ∈ β.openSells) : 0 < β.totalBuy + β.totalSell := by
  obtain ⟨ho, hopen⟩ := List.mem_filter.1 ho
  have hle := h.size_le_totalSell ho hopen
  have hpos := (h.sells o ho).size_pos
  have hbuy := h.totalBuy_nonneg
  omega

theorem Formed.maxPrices_le_pledged (h : β.Formed cfg token) {o : BuyOrder} (ho : o ∈ β.buys)
    (hopen : o.isOpen = true) (d : Denom) : o.maxPrices.amountOf d ≤ β.pledged d := by
  have hbuys : o.maxPrices.amountOf d ≤ buyPledges β.buys d :=
    le_openSum (f := fun o : BuyOrder => o.maxPrices.amountOf d)
      (fun o ho => (h.buys o ho).maxPrices.amountOf_nonneg d) ho hopen
  have hswaps : 0 ≤ swapPledges β.swaps d :=
    openSum_nonneg fun o _ => (Coin.proper_toCoins o.amount).amountOf_nonneg d
  unfold pledged
  omega

theorem Formed.amount_le_pledged (h : β.Formed cfg token) {o : SwapOrder} (ho : o ∈ β.swaps)
    (d : Denom) : o.amount.toCoins.amountOf d ≤ β.pledged d := by
  have hswaps : o.amount.toCoins.amountOf d ≤ swapPledges β.swaps d :=
    le_openSum (f := fun o : SwapOrder => o.amount.toCoins.amountOf d)
      (fun o _ => (Coin.proper_toCoins o.amount).amountOf_nonneg d) ho (h.swaps o ho).isOpen
  have hbuys : 0 ≤ buyPledges β.buys d :=
    openSum_nonneg fun o ho => (h.buys o ho).maxPrices.amountOf_nonneg d
  unfold pledged
  omega

end Batch

/-! ### The reserve account of a bond -/

/-- A bond without its market state and without what an edit may change: what is fixed when the bond
is created. -/
def Bond.terms (b : Bond) : Bond :=
  { b with name := "", description := "", orderLimits := [], sanityRate := Dec.zero
           sanityMargin := Dec.zero, allowSells := false, phase := .opened, supply := 0
           reserve := [] }

section Terms

variable {b b' : Bond} (h : b'.terms = b.terms)

include h

theorem Bond.reserveTokens_congr : b'.reserveTokens = b.reserveTokens :=
  (congrArg Bond.reserveTokens h :)

theorem Bond.isSwapper_congr : b'.isSwapper = b.isSwapper :=
  (congrArg Bond.isSwapper h :)

theorem Bond.maxSupply_congr : b'.maxSupply = b.maxSupply :=
  (congrArg Bond.maxSupply h :)

end Terms

namespace Market

abbrev balance (m : Market) (a : Account) (d : Denom) : Int := m.ledger.balanceOf a d

theorem amountOf_reserveOf (m : Market) (b : Bond) (d : Denom) :
    (m.reserveOf b).amountOf d =
      if d ∈ b.reserveTokens then m.balance b.reserveAddress d else 0 := by
  simp only [Coins.amountOf, reserveOf, Table.get?_ofKeys, mem_sortedTexts]
  split <;> rfl

theorem nodup_keys_reserveOf (m : Market) (b : Bond) : (Table.keys (m.reserveOf b)).Nodup :=
  Table.nodup_keys_ofKeys _ _

theorem proper_reserveOf {m : Market} (h : m.ledger.Solvent) (b : Bond) :
    (m.reserveOf b).Proper := by
  refine Coins.proper_of_amounts (nodup_keys_reserveOf m b) fun d => ?_
  rw [amountOf_reserveOf]
  split
  · exact h _ _
  · exact le_rfl

theorem amountOf_reserveOf_le {m : Market} (h : m.ledger.Solvent) (b : Bond) (d : Denom) :
    (m.reserveOf b).amountOf d ≤ m.balance b.reserveAddress d := by
  rw [amountOf_reserveOf]
  split
  · exact le_rfl
  · exact h _ _

theorem reserveOf_congr {m m' : Market} {b : Bond}
    (h : ∀ d, m'.balance b.reserveAddress d = m.balance b.reserveAddress d) :
    m'.reserveOf b = m.reserveOf b := by
  unfold reserveOf
  exact congrArg _ (funext h)

/-! ### The bond of a token -/

/-- A bond with a batch that may be settled: what the store and the ledger say of them fits. -/
structure Held (cfg : Config) (m : Market) (token : Denom) (b : Bond) (β : Batch) : Prop where
  formed : b.Formed token
  feeUser : cfg.IsUser b.feeAddress
  orders : β.Formed cfg token
  supply_nonneg : 0 ≤ b.supply
  sells_le : β.totalSell ≤ b.supply
  buys_le : b.supply + β.totalBuy ≤ b.maxSupply
  family : b.phase = .hatch → b.isAugmented = true
  hatch : b.inHatch = true → b.allowSells = false ∧ β.totalSell = 0
  room : b.inHatch = true → ∃ limit, b.hatchLimit = .ok limit ∧ b.supply + β.totalBuy ≤ limit
  settled : b.phase = .settled → β.totalBuy = 0 ∧ β.totalSell = 0
  minted : m.ledger.totalSupply token = b.supply - β.totalSell
  synced : b.reserve = (m.reserveOf b).dropZeros

theorem Held.congr {cfg : Config} {m m' : Market} {token : Denom} {b : Bond} {β : Batch}
    (h : Held cfg m token b β)
    (hr : ∀ d, m'.balance (reserveAccountFor token) d = m.balance (reserveAccountFor token) d)
    (ht : m'.ledger.totalSupply token = m.ledger.totalSupply token) : Held cfg m' token b β where
  formed := h.formed
  feeUser := h.feeUser
  orders := h.orders
  supply_nonneg := h.supply_nonneg
  sells_le := h.sells_le
  buys_le := h.buys_le
  family := h.family
  hatch := h.hatch
  room := h.room
  settled := h.settled
  minted := ht.trans h.minted
  synced := by
    have hsame : m'.reserveOf b = m.reserveOf b := reserveOf_congr (h.formed.address ▸ hr)
    rw [h.synced, hsame]

theorem Held.sells_eq_nil {cfg : Config} {m : Market} {token : Denom} {b : Bond} {β : Batch}
    (h : Held cfg m token b β) (hhatch : b.inHatch = true) : β.sells = [] :=
  h.orders.openSells_eq.symm.trans (h.orders.openSells_eq_nil (h.hatch hhatch).2)

/-- The prices of a batch are those that its totals imply. -/
def Current (m : Market) (b : Bond) (β : Batch) : Prop :=
  0 < β.totalBuy + β.totalSell →
    b.clearingPrices (m.reserveOf b) β.totalBuy β.totalSell = .ok ⟨β.buyPrices, β.sellPrices⟩

/-- Swaps wait only for a swapper bond whose pool has been founded and which has not been settled.
-/
def Trades (b : Bond) (β : Batch) : Prop :=
  β.swaps ≠ [] → b.supply ≠ 0 ∧ b.phase ≠ .settled ∧ b.isSwapper = true

/-- The reserve account of a bond holds what is due in a hatch at the supply. -/
def Raised (m : Market) (b : Bond) : Prop :=
  ∀ d ∈ b.reserveTokens, b.hatchReserve b.supply = .ok (m.balance b.reserveAddress d)

/-- A bond in its hatch with its batch: what is due has been raised, no buy is ever cancelled, as
all of them can pay the flat price, and the batch before had no sells. -/
structure Hatching (m : Market) (b : Bond) (β : Batch) : Prop where
  raised : m.Raised b
  unsold : ∀ γ, Table.get? m.store.lastBatches b.token = some γ → γ.sells = []
  isOpen : ∀ o ∈ β.buys, o.isOpen = true
  pays : ∀ o ∈ β.buys, ∀ p0, b.parameters.value "p0" = .ok p0 → b.Affords o (b.uniformAmount p0)

/-- The reserve of an open power or sigmoid bond is that of its curve at the supply, up to less
than one unit below and two units for every order that was filled above. Supplies have to stay
small enough that the rounding of a price, taken over all tokens, is less than a unit. -/
def Backed (m : Market) (b : Bond) (fills : Nat) : Prop :=
  b.functionType = .power ∨ b.functionType = .sigmoid → b.maxSupply < 2 * Dec.scale →
    b.phase = .opened → ∃ r, b.reserveAt b.supply = .ok r ∧
      ∀ d ∈ b.reserveTokens, r.floorInt ≤ m.balance b.reserveAddress d ∧
        m.balance b.reserveAddress d * Dec.scale ≤ r.raw + 2 * fills * Dec.scale

/-- Until an outcome payment has settled a bond, its reserve account holds nothing but reserve
tokens. A pool has some of either reserve token while shares of it are out, where its supply stays
so small that the rounding of a price never comes to a unit. -/
structure Stocked (m : Market) (b : Bond) : Prop where
  confined : b.phase ≠ .settled → ∀ d ∉ b.reserveTokens, m.balance b.reserveAddress d = 0
  positive : b.isSwapper = true → b.maxSupply ≤ 1000000000 → 0 < b.supply →
    ∀ d ∈ b.reserveTokens, 0 < m.balance b.reserveAddress d

/-! ### Everything else -/

/-- Two markets differ at most in the bond of a token: in what of its record may change, in its
batches, in its reserve account, in the total of its token and in the accounts that are no reserve.
-/
structure Apart (token : Denom) (m m' : Market) : Prop where
  refusals : m'.refusals = m.refusals
  keys : Table.keys m'.store.bonds = Table.keys m.store.bonds
  terms : (Table.get? m'.store.bonds token).map Bond.terms =
    (Table.get? m.store.bonds token).map Bond.terms
  bond : ∀ u ≠ token, Table.get? m'.store.bonds u = Table.get? m.store.bonds u
  batch : ∀ u ≠ token, Table.get? m'.store.batches u = Table.get? m.store.batches u
  last : ∀ u ≠ token, Table.get? m'.store.lastBatches u = Table.get? m.store.lastBatches u
  reserve : ∀ u ≠ token, ∀ d, m'.balance (reserveAccountFor u) d = m.balance (reserveAccountFor u) d
  total : ∀ d ≠ token, m'.ledger.totalSupply d = m.ledger.totalSupply d

theorem Apart.refl (token : Denom) (m : Market) : Apart token m m :=
  ⟨rfl, rfl, rfl, fun _ _ => rfl, fun _ _ => rfl, fun _ _ => rfl, fun _ _ _ => rfl, fun _ _ => rfl⟩

theorem Apart.trans {token : Denom} {m m₁ m₂ : Market} (h : Apart token m m₁)
    (h' : Apart token m₁ m₂) : Apart token m m₂ where
  refusals := h'.refusals.trans h.refusals
  keys := h'.keys.trans h.keys
  terms := h'.terms.trans h.terms
  bond u hu := (h'.bond u hu).trans (h.bond u hu)
  batch u hu := (h'.batch u hu).trans (h.batch u hu)
  last u hu := (h'.last u hu).trans (h.last u hu)
  reserve u hu d := (h'.reserve u hu d).trans (h.reserve u hu d)
  total d hd := (h'.total d hd).trans (h.total d hd)

/-- No bond is lost, and the terms of every bond stay as they are. -/
def Lasting (m m' : Market) : Prop :=
  ∀ t b, Table.get? m.store.bonds t = some b →
    ∃ b', Table.get? m'.store.bonds t = some b' ∧ b'.terms = b.terms

theorem Lasting.refl (m : Market) : Lasting m m := fun _ b hb => ⟨b, hb, rfl⟩

theorem Lasting.trans {m m₁ m' : Market} (h : Lasting m m₁) (h' : Lasting m₁ m') :
    Lasting m m' := by
  intro t b hb
  obtain ⟨b₁, hb₁, hterms⟩ := h t b hb
  obtain ⟨b', hb', hterms'⟩ := h' t b₁ hb₁
  exact ⟨b', hb', hterms'.trans hterms⟩

theorem Apart.lasting {token : Denom} {m m' : Market} (h : Apart token m m') : Lasting m m' := by
  intro t b hb
  by_cases ht : t = token
  · subst ht
    have hterms := h.terms
    rw [hb, Option.map_some] at hterms
    exact Option.map_eq_some_iff.1 hterms
  · exact ⟨b, (h.bond t ht).trans hb, rfl⟩

/-- What a request keeps of the totals: those of all denominations but the bond tokens. -/
def Spared (m m' : Market) : Prop :=
  ∀ d, Table.get? m.store.bonds d = none → m'.ledger.totalSupply d = m.ledger.totalSupply d

theorem Spared.trans {m m₁ m' : Market} (h : Spared m m₁)
    (hkeys : Table.keys m₁.store.bonds = Table.keys m.store.bonds) (h' : Spared m₁ m') :
    Spared m m' := by
  intro d hd
  exact (h' d ((Table.get?_eq_none_congr hkeys).2 hd)).trans (h d hd)

theorem Apart.spared {token : Denom} {m m' : Market} (h : Apart token m m') {b : Bond}
    (hb : Table.get? m.store.bonds token = some b) : Spared m m' := by
  intro d hd
  refine h.total d ?_
  rintro rfl
  cases hb.symm.trans hd

theorem Posted.spared {token : Denom} {m m' : Market} {flow : Account → Denom → Int}
    {made : Denom → Int} (h : m.Posted m' flow made) (hmade : ∀ d ≠ token, made d = 0) {b : Bond}
    (hb : Table.get? m.store.bonds token = some b) : Spared m m' := by
  intro d hd
  rw [h.total, hmade d, add_zero]
  rintro rfl
  cases hb.symm.trans hd

theorem Posted.apart {token : Denom} {m m' : Market} {flow : Account → Denom → Int}
    {made : Denom → Int} (h : m.Posted m' flow made)
    (hflow : ∀ u ≠ token, ∀ d, flow (reserveAccountFor u) d = 0)
    (hmade : ∀ d ≠ token, made d = 0) : Apart token m m' where
  refusals := h.refusals
  keys := by rw [h.store]
  terms := by rw [h.store]
  bond _ _ := by rw [h.store]
  batch _ _ := by rw [h.store]
  last _ _ := by rw [h.store]
  reserve u hu d := by
    have := h.balance (reserveAccountFor u) d
    rw [hflow u hu, add_zero] at this
    exact this
  total d hd := by rw [h.total, hmade d hd, add_zero]

def withBatch (m : Market) (token : Denom) (β : Batch) : Market :=
  { m with store := m.store.setBatch token β }

def withBond (m : Market) (token : Denom) (b : Bond) : Market :=
  { m with store := { m.store with bonds := Table.set m.store.bonds token b } }

section Replace

variable (m : Market) (token : Denom) (β β' : Batch) (b b' : Bond)

@[simp] theorem withBatch_ledger : (m.withBatch token β).ledger = m.ledger := rfl
@[simp] theorem withBatch_refusals : (m.withBatch token β).refusals = m.refusals := rfl
@[simp] theorem withBatch_bonds : (m.withBatch token β).store.bonds = m.store.bonds := rfl
@[simp] theorem withBond_ledger : (m.withBond token b).ledger = m.ledger := rfl
@[simp] theorem withBond_refusals : (m.withBond token b).refusals = m.refusals := rfl
@[simp] theorem withBond_batches : (m.withBond token b).store.batches = m.store.batches := rfl

@[simp] theorem get?_withBatch :
    Table.get? (m.withBatch token β).store.batches token = some β :=
  Table.get?_set_self _ _ _

@[simp] theorem get?_withBond : Table.get? (m.withBond token b).store.bonds token = some b :=
  Table.get?_set_self _ _ _

@[simp] theorem withBatch_withBatch :
    (m.withBatch token β).withBatch token β' = m.withBatch token β' := by
  simp only [withBatch, Store.setBatch, Table.set_set]

variable {m token β}

theorem withBatch_self (h : Table.get? m.store.batches token = some β) :
    m.withBatch token β = m := by
  simp only [withBatch, Store.setBatch, Table.set_of_get? h]

theorem withBond_self {b : Bond} (h : Table.get? m.store.bonds token = some b) :
    m.withBond token b = m := by
  simp only [withBond, Table.set_of_get? h]

theorem apart_withBatch : Apart token m (m.withBatch token β) where
  refusals := rfl
  keys := rfl
  terms := rfl
  bond _ _ := rfl
  batch _ hu := Table.get?_set_of_ne _ (Ne.symm hu) _
  last _ _ := rfl
  reserve _ _ _ := rfl
  total _ _ := rfl

theorem apart_withBond {b b₀ : Bond} (h : Table.get? m.store.bonds token = some b₀)
    (hterms : b.terms = b₀.terms) : Apart token m (m.withBond token b) where
  refusals := rfl
  keys := Table.keys_set_of_mem (Table.mem_keys_of_get? h) b
  terms := by rw [get?_withBond, h, Option.map_some, Option.map_some, hterms]
  bond _ hu := Table.get?_set_of_ne _ (Ne.symm hu) _
  batch _ _ := rfl
  last _ _ := rfl
  reserve _ _ _ := rfl
  total _ _ := rfl

end Replace

/-! ### The market as a whole -/

def pledgedBy (m : Market) (token : Denom) (d : Denom) : Int :=
  match Table.get? m.store.batches token with
  | some β => β.pledged d
  | none => 0

def pledged (m : Market) (d : Denom) : Int :=
  ((Table.keys m.store.bonds).map fun t => m.pledgedBy t d).sum

/-- The books of a market are in order. The tokens of bonds are among the `bonded` denominations,
which are made by the market alone. -/
structure Kept (cfg : Config) (bonded : Denom → Prop) (m : Market) : Prop where
  refusals : m.refusals = {}
  distinct : (Table.keys m.store.bonds).Nodup
  solvent : m.ledger.Solvent
  held : ∀ t b, Table.get? m.store.bonds t = some b →
    bonded t ∧ ∃ β, Table.get? m.store.batches t = some β ∧ Held cfg m t b β
  vacant : ∀ t, Table.get? m.store.bonds t = none →
    (∀ d, m.balance (reserveAccountFor t) d = 0) ∧ (bonded t → m.ledger.totalSupply t = 0) ∧
      Table.get? m.store.lastBatches t = none
  escrow : ∀ d, m.balance cfg.escrowAccount d = m.pledged d

/-- A market between requests, when so many orders of each bond have been filled. -/
structure Sound (cfg : Config) (bonded : Denom → Prop) (fills : Denom → Nat) (m : Market) : Prop
    where
  kept : Kept cfg bonded m
  current : ∀ t b β, Table.get? m.store.bonds t = some b → Table.get? m.store.batches t = some β →
    m.Current b β
  trades : ∀ t b β, Table.get? m.store.bonds t = some b → Table.get? m.store.batches t = some β →
    Trades b β
  hatching : ∀ t b β, Table.get? m.store.bonds t = some b → Table.get? m.store.batches t = some β →
    b.inHatch = true → m.Hatching b β
  backed : ∀ t b, Table.get? m.store.bonds t = some b → m.Backed b (fills t)
  stocked : ∀ t b, Table.get? m.store.bonds t = some b → m.Stocked b

variable {cfg : Config} {bonded : Denom → Prop} {m m' : Market} {token : Denom}

theorem pledgedBy_of_get? {β : Batch} (h : Table.get? m.store.batches token = some β) (d : Denom) :
    m.pledgedBy token d = β.pledged d := by
  simp [pledgedBy, h]

theorem Kept.pledged_le (h : Kept cfg bonded m) {b : Bond} {β : Batch}
    (hb : Table.get? m.store.bonds token = some b)
    (hβ : Table.get? m.store.batches token = some β) (d : Denom) :
    β.pledged d ≤ m.balance cfg.escrowAccount d := by
  rw [h.escrow, ← pledgedBy_of_get? hβ]
  refine List.single_le_sum (fun n hn => ?_) _
    (List.mem_map_of_mem (f := fun t => m.pledgedBy t d) (Table.mem_keys_of_get? hb))
  obtain ⟨t, ht, rfl⟩ := List.mem_map.1 hn
  obtain ⟨b₁, hb₁⟩ := Table.mem_keys_iff.1 ht
  obtain ⟨-, β₁, hβ₁, hheld⟩ := h.held t b₁ hb₁
  rw [pledgedBy_of_get? hβ₁]
  exact hheld.orders.pledged_nonneg d

theorem Kept.held_of_get? (h : Kept cfg bonded m) {b : Bond} {β : Batch}
    (hb : Table.get? m.store.bonds token = some b)
    (hβ : Table.get? m.store.batches token = some β) : Held cfg m token b β := by
  obtain ⟨-, β', hβ', hheld⟩ := h.held token b hb
  cases hβ.symm.trans hβ'
  exact hheld

theorem Kept.formed (h : Kept cfg bonded m) {b : Bond}
    (hb : Table.get? m.store.bonds token = some b) : b.Formed token := by
  obtain ⟨-, β, -, hheld⟩ := h.held token b hb
  exact hheld.formed

theorem Kept.bonded_of_mem (h : Kept cfg bonded m) {t : Denom}
    (ht : t ∈ Table.keys m.store.bonds) : bonded t := by
  obtain ⟨b, hb⟩ := Table.mem_keys_iff.1 ht
  exact (h.held t b hb).1

/-- Where two markets agree on every other bond, what is in escrow differs by the batches of the
one bond. -/
theorem Apart.pledged_add (h : Apart token m m') (hd : (Table.keys m.store.bonds).Nodup)
    (hk : token ∈ Table.keys m.store.bonds) (d : Denom) :
    m'.pledged d + m.pledgedBy token d = m.pledged d + m'.pledgedBy token d := by
  rw [pledged, h.keys]
  refine sum_map_congr_except (f := fun t => m'.pledgedBy t d) (g := fun t => m.pledgedBy t d)
    hd hk fun u _ hu => ?_
  simp only [pledgedBy, h.batch u hu]

/-- An action that works on one bond and keeps the books in order changes what is in escrow by what
it changes in the batch. -/
theorem Apart.escrow_add {b : Bond} {β β' : Batch} (ha : Apart token m m')
    (h : Kept cfg bonded m) (h' : Kept cfg bonded m')
    (hb : Table.get? m.store.bonds token = some b)
    (hβ : Table.get? m.store.batches token = some β)
    (hβ' : Table.get? m'.store.batches token = some β') (d : Denom) :
    m'.balance cfg.escrowAccount d + β.pledged d =
      m.balance cfg.escrowAccount d + β'.pledged d := by
  have hpledged := ha.pledged_add h.distinct (Table.mem_keys_of_get? hb) d
  rw [h.escrow, h'.escrow, ← pledgedBy_of_get? hβ, ← pledgedBy_of_get? hβ', hpledged]

/-- An action that works on one bond keeps the books in order if that bond and its batch are held
afterwards and the escrow account follows the batch. The batches are given apart from the store,
which need not have them yet. -/
theorem Kept.exchange {b' : Bond} {β β' : Batch} (h : Kept cfg bonded (m.withBatch token β))
    (ha : Apart token m m') (hb : Table.get? m'.store.bonds token = some b')
    (hheld : Held cfg m' token b' β') (hs : m'.ledger.Solvent)
    (he : ∀ d, m'.balance cfg.escrowAccount d + β.pledged d =
      m.balance cfg.escrowAccount d + β'.pledged d) :
    Kept cfg bonded (m'.withBatch token β') := by
  have hmem : token ∈ Table.keys m.store.bonds := ha.keys ▸ Table.mem_keys_of_get? hb
  have hapart : Apart token (m.withBatch token β) (m'.withBatch token β') :=
    { refusals := ha.refusals, keys := ha.keys, terms := ha.terms, bond := ha.bond, last := ha.last
      reserve := ha.reserve, total := ha.total
      batch := fun u hu => by
        simp only [withBatch, Store.setBatch, Table.get?_set_of_ne _ (Ne.symm hu)]
        exact ha.batch u hu }
  refine ⟨ha.refusals.trans h.refusals, ?_, hs, fun t b ht => ?_, fun t ht => ?_, fun d => ?_⟩
  · rw [withBatch_bonds, ha.keys]
    exact h.distinct
  · -- The bond at hand is the one that is held by hypothesis; every other one is held as before.
    by_cases htoken : t = token
    · subst htoken
      obtain ⟨b₀, hb₀⟩ := Table.mem_keys_iff.1 hmem
      obtain rfl : b' = b := Option.some.inj (hb.symm.trans ht)
      exact ⟨(h.held t b₀ hb₀).1, β', get?_withBatch .., hheld.congr (fun _ => rfl) rfl⟩
    · rw [hapart.bond t htoken] at ht
      obtain ⟨hbonded, β₁, hβ₁, hheld₁⟩ := h.held t b ht
      refine ⟨hbonded, β₁, (hapart.batch t htoken).trans hβ₁, ?_⟩
      exact hheld₁.congr (hapart.reserve t htoken) (hapart.total t htoken)
  · have htoken : t ≠ token := by
      rintro rfl
      cases hb.symm.trans ht
    rw [hapart.bond t htoken] at ht
    obtain ⟨hzero, htotal, hlast⟩ := h.vacant t ht
    exact ⟨fun d => (hapart.reserve t htoken d).trans (hzero d),
      fun hbonded => (hapart.total t htoken).trans (htotal hbonded),
      (hapart.last t htoken).trans hlast⟩
  · -- One escrow account serves all bonds: their sum changes by what this batch changes.
    have hsum := hapart.pledged_add h.distinct hmem d
    rw [pledgedBy_of_get? (get?_withBatch ..), pledgedBy_of_get? (get?_withBatch ..)] at hsum
    have hescrow := h.escrow d
    have := he d
    simp only [balance, withBatch_ledger] at hescrow this ⊢
    omega

theorem Kept.replace {b' : Bond} {β β' : Batch} (h : Kept cfg bonded m) (ha : Apart token m m')
    (hβ : Table.get? m.store.batches token = some β)
    (hb : Table.get? m'.store.bonds token = some b')
    (hβ' : Table.get? m'.store.batches token = some β') (hheld : Held cfg m' token b' β')
    (hs : m'.ledger.Solvent)
    (he : ∀ d, m'.balance cfg.escrowAccount d + β.pledged d =
      m.balance cfg.escrowAccount d + β'.pledged d) : Kept cfg bonded m' := by
  have hkept : Kept cfg bonded (m.withBatch token β) := (withBatch_self hβ).symm ▸ h
  exact withBatch_self hβ' ▸ hkept.exchange ha hb hheld hs he

theorem Current.congr {b : Bond} {β : Batch} (h : m.Current b β)
    (hr : ∀ d, m'.balance b.reserveAddress d = m.balance b.reserveAddress d) : m'.Current b β := by
  rw [Current, reserveOf_congr hr]
  exact h

theorem Raised.congr {b : Bond} (h : m.Raised b)
    (hr : ∀ d, m'.balance b.reserveAddress d = m.balance b.reserveAddress d) : m'.Raised b := by
  simp only [Raised, hr]
  exact h

theorem Hatching.congr {b : Bond} {β : Batch} (h : m.Hatching b β)
    (hr : ∀ d, m'.balance b.reserveAddress d = m.balance b.reserveAddress d)
    (hlast : Table.get? m'.store.lastBatches b.token = Table.get? m.store.lastBatches b.token) :
    m'.Hatching b β :=
  { h with raised := h.raised.congr hr, unsold := hlast ▸ h.unsold }

theorem Backed.congr {b : Bond} {n : Nat} (h : m.Backed b n)
    (hr : ∀ d, m'.balance b.reserveAddress d = m.balance b.reserveAddress d) : m'.Backed b n := by
  simp only [Backed, hr]
  exact h

theorem Stocked.congr {b : Bond} (h : m.Stocked b)
    (hr : ∀ d, m'.balance b.reserveAddress d = m.balance b.reserveAddress d) : m'.Stocked b where
  confined := by simpa only [hr] using h.confined
  positive := by simpa only [hr] using h.positive

/-- An action that works on one bond leaves a sound market if the books stay in order and that bond
has current prices, may have the swaps that wait for it, has what is due in a hatch, is backed, and
has the stock that a bond should have. -/
theorem Sound.replace {fills fills' : Denom → Nat} {b' : Bond} {β' : Batch}
    (h : Sound cfg bonded fills m) (ha : Apart token m m') (hk : Kept cfg bonded m')
    (hfills : ∀ u ≠ token, fills' u = fills u)
    (hb : Table.get? m'.store.bonds token = some b')
    (hβ : Table.get? m'.store.batches token = some β') (hc : m'.Current b' β')
    (htrades : Trades b' β') (hhatching : b'.inHatch = true → m'.Hatching b' β')
    (hbacked : m'.Backed b' (fills' token)) (hstocked : m'.Stocked b') :
    Sound cfg bonded fills' m' where
  kept := hk
  current t b β ht hβt := by
    by_cases htoken : t = token
    · subst htoken
      obtain rfl := Option.some.inj (hb.symm.trans ht)
      obtain rfl := Option.some.inj (hβ.symm.trans hβt)
      exact hc
    · rw [ha.bond t htoken] at ht
      rw [ha.batch t htoken] at hβt
      exact (h.current t b β ht hβt).congr ((h.kept.formed ht).address ▸ ha.reserve t htoken)
  trades t b β ht hβt := by
    by_cases htoken : t = token
    · subst htoken
      obtain rfl := Option.some.inj (hb.symm.trans ht)
      obtain rfl := Option.some.inj (hβ.symm.trans hβt)
      exact htrades
    · exact h.trades t b β (ha.bond t htoken ▸ ht) (ha.batch t htoken ▸ hβt)
  hatching t b β ht hβt hhatch := by
    by_cases htoken : t = token
    · subst htoken
      obtain rfl := Option.some.inj (hb.symm.trans ht)
      obtain rfl := Option.some.inj (hβ.symm.trans hβt)
      exact hhatching hhatch
    · rw [ha.bond t htoken] at ht
      rw [ha.batch t htoken] at hβt
      have hformed := h.kept.formed ht
      exact (h.hatching t b β ht hβt hhatch).congr (hformed.address ▸ ha.reserve t htoken)
        (hformed.token_eq ▸ ha.last t htoken)
  backed t b ht := by
    by_cases htoken : t = token
    · subst htoken
      obtain rfl := Option.some.inj (hb.symm.trans ht)
      exact hbacked
    · rw [ha.bond t htoken] at ht
      rw [hfills t htoken]
      exact (h.backed t b ht).congr ((h.kept.formed ht).address ▸ ha.reserve t htoken)
  stocked t b ht := by
    by_cases htoken : t = token
    · subst htoken
      obtain rfl := Option.some.inj (hb.symm.trans ht)
      exact hstocked
    · rw [ha.bond t htoken] at ht
      exact (h.stocked t b ht).congr ((h.kept.formed ht).address ▸ ha.reserve t htoken)

end Market
end BondMarket
