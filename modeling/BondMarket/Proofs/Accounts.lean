import BondMarket.Bond.Basic
import BondMarket.Config

/-!
Accounts. The two accounts of a market itself and the reserve accounts of its bonds are told
apart by their names; every other account belongs to a user.
-/

namespace BondMarket

theorem toList_reserveAccountFor (token : Denom) : (reserveAccountFor token).toList =
    "bonds/".toList ++ token.toList ++ "/reserveAddress".toList := by
  simp [reserveAccountFor, toString]

theorem reserveAccountFor_inj {t u : Denom} :
    reserveAccountFor t = reserveAccountFor u ↔ t = u := by
  constructor
  · intro h
    have hlist := congrArg String.toList h
    rw [toList_reserveAccountFor, toList_reserveAccountFor] at hlist
    exact String.toList_inj.1 (List.append_cancel_left (List.append_cancel_right hlist))
  · exact congrArg reserveAccountFor

theorem exists_reserveAccountFor_iff {a : Account} : (∃ t, reserveAccountFor t = a) ↔
    "bonds/".toList <+: a.toList ∧ "/reserveAddress".toList <:+ a.toList ∧
      ("bonds/".toList ++ "/reserveAddress".toList).length ≤ a.toList.length := by
  constructor
  · rintro ⟨t, rfl⟩
    rw [toList_reserveAccountFor]
    refine ⟨⟨_, (List.append_assoc ..).symm⟩, List.suffix_append .., ?_⟩
    simp only [List.length_append]
    omega
  · rintro ⟨⟨x, hx⟩, hsuffix, hlength⟩
    rw [← hx, List.length_append, List.length_append, Nat.add_le_add_iff_left] at hlength
    obtain ⟨token, htoken⟩ :=
      List.suffix_of_suffix_length_le hsuffix ⟨"bonds/".toList, hx⟩ hlength
    have htext : (String.ofList token).toList = token := String.toList_ofList
    refine ⟨String.ofList token, String.toList_inj.1 ?_⟩
    rw [toList_reserveAccountFor, htext, List.append_assoc, htoken, hx]

instance decidableIsReserve (a : Account) : Decidable (∃ t, reserveAccountFor t = a) :=
  decidable_of_iff _ exists_reserveAccountFor_iff.symm

namespace Config

/-- Settings that keep the accounts of the market and of its bonds apart and give every batch a
block. -/
structure Separate (cfg : Config) : Prop where
  mintBurn_ne_escrow : cfg.mintBurnAccount ≠ cfg.escrowAccount
  mintBurn_ne_reserve : ∀ t, cfg.mintBurnAccount ≠ reserveAccountFor t
  escrow_ne_reserve : ∀ t, cfg.escrowAccount ≠ reserveAccountFor t
  blocks : 0 < cfg.defaultBlocks

/-- An account that is neither the market's nor the reserve of a bond. -/
structure IsUser (cfg : Config) (a : Account) : Prop where
  ne_mintBurn : a ≠ cfg.mintBurnAccount
  ne_escrow : a ≠ cfg.escrowAccount
  ne_reserve : ∀ t, a ≠ reserveAccountFor t

instance decidableIsUser (cfg : Config) (a : Account) : Decidable (cfg.IsUser a) :=
  decidable_of_iff
    (a ≠ cfg.mintBurnAccount ∧ a ≠ cfg.escrowAccount ∧ ¬ ∃ t, reserveAccountFor t = a)
    ⟨fun h => ⟨h.1, h.2.1, fun t ht => h.2.2 ⟨t, ht.symm⟩⟩,
      fun h => ⟨h.ne_mintBurn, h.ne_escrow, fun ⟨t, ht⟩ => h.ne_reserve t ht.symm⟩⟩

theorem separate_default : Separate {} where
  mintBurn_ne_escrow := by decide
  mintBurn_ne_reserve t h :=
    absurd ⟨t, h.symm⟩ (by decide : ¬ ∃ t, reserveAccountFor t = "bonds_mint_burn_account")
  escrow_ne_reserve t h :=
    absurd ⟨t, h.symm⟩ (by decide : ¬ ∃ t, reserveAccountFor t = "batches_intermediary_account")
  blocks := by decide

end Config
end BondMarket
