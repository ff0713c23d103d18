import BondMarket.Market.Execution

/-!
Reasoning about computations that may fail.

A `Result` that came out well is taken apart with `Result.bind_eq_ok`. An action is reasoned about
forwards: `act.Sat m Q E` says that from the market `m` it either gives a result and a new market
for which `Q` holds, or fails with an error and a market for which `E` holds. Every construct of
an action has a rule, and `Sat.mono` weakens what is known at the end.
-/

namespace BondMarket

namespace Result

variable {α β : Type}

@[simp] theorem ok_bind (a : α) (f : α → Result β) : (Except.ok a >>= f) = f a := rfl

@[simp] theorem error_bind (e : Error) (f : α → Result β) :
    ((Except.error e : Result α) >>= f) = Except.error e := rfl

@[simp] theorem pure_eq_ok (a : α) : (pure a : Result α) = Except.ok a := rfl

theorem bind_eq_ok {x : Result α} {f : α → Result β} {b : β} :
    (x >>= f) = Except.ok b ↔ ∃ a, x = Except.ok a ∧ f a = Except.ok b := by
  cases x <;> simp

theorem map_eq_ok {x : Result α} {f : α → β} {b : β} :
    (f <$> x) = Except.ok b ↔ ∃ a, x = Except.ok a ∧ f a = b := by
  cases x <;> simp [Functor.map, Except.map]

theorem toOption_eq_some {x : Result α} {a : α} : x.toOption = some a ↔ x = .ok a := by
  cases x <;> simp [Except.toOption]

theorem outcomes_ok {a : α} {P : Error → Prop} {Q : α → Prop} (h : Q a) :
    (∀ e, (Except.ok a : Result α) = .error e → P e) ∧
      ∀ a', (Except.ok a : Result α) = .ok a' → Q a' := by
  constructor
  · intro e he
    cases he
  · intro a' ha
    cases ha
    exact h

theorem outcomes_error {e : Error} {P : Error → Prop} {Q : α → Prop} (h : P e) :
    (∀ e', (Except.error e : Result α) = .error e' → P e') ∧
      ∀ a, (Except.error e : Result α) = .ok a → Q a := by
  constructor
  · intro e' he
    cases he
    exact h
  · intro a ha
    cases ha

end Result

namespace Action

variable {α β : Type} {m : Market}

/-- What an action does from a market: `Q` holds of its result and the new market, or `E` of its
error and the market in which it was raised. -/
def Sat (act : Action α) (m : Market) (Q : α → Market → Prop) (E : Error → Market → Prop) : Prop :=
  match act m with
  | .ok a m' => Q a m'
  | .error e m' => E e m'

theorem Sat.mono {act : Action α} {Q Q' : α → Market → Prop} {E E' : Error → Market → Prop}
    (h : act.Sat m Q E) (hQ : ∀ a m', Q a m' → Q' a m') (hE : ∀ e m', E e m' → E' e m') :
    act.Sat m Q' E' := by
  unfold Sat at h ⊢
  split at h
  · exact hQ _ _ h
  · exact hE _ _ h

theorem Sat.imp {act : Action α} {Q Q' : α → Market → Prop} {E : Error → Market → Prop}
    (h : act.Sat m Q E) (hQ : ∀ a m', Q a m' → Q' a m') : act.Sat m Q' E :=
  h.mono hQ fun _ _ he => he

theorem Sat.of_total {act : Action α} {Q Q' : α → Market → Prop} {E : Error → Market → Prop}
    (h : act.Sat m Q fun _ _ => False) (hQ : ∀ a m', Q a m' → Q' a m') : act.Sat m Q' E :=
  h.mono hQ fun _ _ hfalse => hfalse.elim

theorem Sat.trivial (act : Action α) (m : Market) :
    act.Sat m (fun _ _ => True) fun _ _ => True := by
  unfold Sat
  split <;> exact True.intro

/-- What is decidable of the outcomes can be decided by running the action. -/
instance decidableSat (act : Action α) (m : Market) (Q : α → Market → Prop)
    (E : Error → Market → Prop) [∀ a m', Decidable (Q a m')] [∀ e m', Decidable (E e m')] :
    Decidable (act.Sat m Q E) :=
  match h : act m with
  | .ok a m' => decidable_of_iff (Q a m') (by rw [Sat, h])
  | .error e m' => decidable_of_iff (E e m') (by rw [Sat, h])

theorem Sat.of_ok {act : Action α} {Q : α → Market → Prop} {E : Error → Market → Prop}
    {a : α} {m' : Market} (h : act.Sat m Q E) (hr : act m = .ok a m') : Q a m' := by
  simpa [Sat, hr] using h

theorem Sat.of_error {act : Action α} {Q : α → Market → Prop} {E : Error → Market → Prop}
    {e : Error} {m' : Market} (h : act.Sat m Q E) (hr : act m = .error e m') : E e m' := by
  simpa [Sat, hr] using h

/-- What comes of an action may refer to its run. -/
theorem Sat.recall {act : Action α} {Q : α → Market → Prop} {E : Error → Market → Prop}
    (h : act.Sat m Q E) : act.Sat m (fun a m' => act m = .ok a m' ∧ Q a m') E := by
  unfold Sat at h ⊢
  split at h
  · exact ⟨‹_›, h⟩
  · exact h

theorem sat_of_eq_ok {act : Action α} {Q : α → Market → Prop} {E : Error → Market → Prop}
    {a : α} {m' : Market} (hr : act m = .ok a m') : act.Sat m Q E ↔ Q a m' := by
  simp [Sat, hr]

theorem Sat.exists_ok {act : Action α} {Q : α → Market → Prop}
    (h : act.Sat m Q fun _ _ => False) : ∃ a m', act m = .ok a m' ∧ Q a m' := by
  cases hr : act m with
  | ok a m' => exact ⟨a, m', rfl, h.of_ok hr⟩
  | error e m' => exact (h.of_error hr).elim

theorem Sat.exists_error {act : Action α} {E : Error → Market → Prop}
    (h : act.Sat m (fun _ _ => False) E) : ∃ e m', act m = .error e m' ∧ E e m' := by
  cases hr : act m with
  | ok a m' => exact (h.of_ok hr).elim
  | error e m' => exact ⟨e, m', rfl, h.of_error hr⟩

theorem Sat.and {act : Action α} {Q Q' : α → Market → Prop} {E E' : Error → Market → Prop}
    (h : act.Sat m Q E) (h' : act.Sat m Q' E') :
    act.Sat m (fun a m => Q a m ∧ Q' a m) (fun e m => E e m ∧ E' e m) := by
  unfold Sat at h h' ⊢
  split at h <;> rename_i hr <;> simp only [hr] at h' ⊢ <;> exact ⟨h, h'⟩

@[simp] theorem sat_pure {a : α} {Q : α → Market → Prop} {E : Error → Market → Prop} :
    (pure a : Action α).Sat m Q E ↔ Q a m := Iff.rfl

@[simp] theorem sat_throw {e : Error} {Q : α → Market → Prop} {E : Error → Market → Prop} :
    (throw e : Action α).Sat m Q E ↔ E e m := Iff.rfl

theorem sat_bind {act : Action α} {f : α → Action β} {Q : β → Market → Prop}
    {E : Error → Market → Prop} :
    (act >>= f).Sat m Q E ↔ act.Sat m (fun a m' => (f a).Sat m' Q E) E := by
  simp only [Sat, bind, EStateM.bind]
  cases act m <;> rfl

theorem sat_map {act : Action α} {f : α → β} {Q : β → Market → Prop}
    {E : Error → Market → Prop} :
    (f <$> act).Sat m Q E ↔ act.Sat m (fun a m' => Q (f a) m') E := by
  simp only [Sat, Functor.map, EStateM.map]
  cases act m <;> rfl

theorem bind_eq_ok {act : Action α} {f : α → Action β} {b : β} {m' : Market} :
    (act >>= f) m = .ok b m' ↔ ∃ a m₁, act m = .ok a m₁ ∧ f a m₁ = .ok b m' := by
  simp only [bind, EStateM.bind]
  cases act m with
  | error e m₁ => simp
  | ok a m₁ =>
      constructor
      · exact fun h => ⟨a, m₁, rfl, h⟩
      · rintro ⟨_, _, h, hf⟩
        cases h
        exact hf

theorem map_eq_ok {act : Action α} {f : α → β} {b : β} {m' : Market} :
    (f <$> act) m = .ok b m' ↔ ∃ a, act m = .ok a m' ∧ f a = b := by
  simp only [Functor.map, EStateM.map]
  cases act m with
  | error e m₁ => simp
  | ok a m₁ =>
      constructor
      · intro h
        cases h
        exact ⟨a, rfl, rfl⟩
      · rintro ⟨_, h, rfl⟩
        cases h
        rfl

@[simp] theorem pure_eq_ok {a b : α} {m' : Market} :
    (pure a : Action α) m = .ok b m' ↔ a = b ∧ m = m' := by
  simp [pure, EStateM.pure]

@[simp] theorem sat_get {Q : Market → Market → Prop} {E : Error → Market → Prop} :
    (get : Action Market).Sat m Q E ↔ Q m m := Iff.rfl

@[simp] theorem sat_set {m' : Market} {Q : PUnit → Market → Prop} {E : Error → Market → Prop} :
    (set m' : Action PUnit).Sat m Q E ↔ Q ⟨⟩ m' := Iff.rfl

@[simp] theorem sat_modify {f : Market → Market} {Q : PUnit → Market → Prop}
    {E : Error → Market → Prop} : (modify f : Action PUnit).Sat m Q E ↔ Q ⟨⟩ (f m) := Iff.rfl

theorem sat_lift {x : Result α} {Q : α → Market → Prop} {E : Error → Market → Prop} :
    (liftM x : Action α).Sat m Q E ↔ (∀ a, x = .ok a → Q a m) ∧ ∀ e, x = .error e → E e m := by
  cases x <;> simp [Sat, liftM, monadLift, MonadLift.monadLift, ofResult]

theorem lift_eq_ok {x : Result α} {a : α} {m' : Market} :
    (liftM x : Action α) m = .ok a m' ↔ x = .ok a ∧ m = m' := by
  cases x <;> simp [liftM, monadLift, MonadLift.monadLift, ofResult]

theorem lift_bind_eq_ok {x : Result α} {f : α → Action β} {b : β} {m' : Market} :
    ((liftM x : Action α) >>= f) m = .ok b m' ↔ ∃ a, x = .ok a ∧ f a m = .ok b m' := by
  simp only [bind_eq_ok, lift_eq_ok]
  constructor
  · rintro ⟨a, _, ⟨hx, rfl⟩, h⟩
    exact ⟨a, hx, h⟩
  · rintro ⟨a, hx, h⟩
    exact ⟨a, m, ⟨hx, rfl⟩, h⟩

theorem sat_lift_of_ok {x : Result α} {a : α} {Q : α → Market → Prop}
    {E : Error → Market → Prop} (hx : x = .ok a) :
    (liftM x : Action α).Sat m Q E ↔ Q a m := by
  simp [sat_lift, hx]

theorem sat_lift_of_error {x : Result α} {e : Error} {Q : α → Market → Prop}
    {E : Error → Market → Prop} (hx : x = .error e) :
    (liftM x : Action α).Sat m Q E ↔ E e m := by
  simp [sat_lift, hx]

theorem sat_ite {p : Prop} [Decidable p] {x y : Action α} {Q : α → Market → Prop}
    {E : Error → Market → Prop} :
    (if p then x else y).Sat m Q E ↔ (p → x.Sat m Q E) ∧ (¬p → y.Sat m Q E) := by
  by_cases h : p <;> simp [h]

/-- Where an action is applied to the places of a list, what it keeps as it goes through them holds
at the end. `I` speaks of the places that are left and of what has been gathered. -/
theorem sat_gather {act : α → Action (Option β)} {I : List α → List β → Market → Prop}
    {E : Error → Market → Prop}
    (step : ∀ i is os m, I (i :: is) os m →
      (act i).Sat m (fun o m' => I is (os ++ o.toList) m') E)
    (is : List α) (h : I is [] m) : (Market.gather act is).Sat m (fun os m' => I [] os m') E := by
  suffices hgen : ∀ os m, I is os m →
      (Market.gather act is).Sat m (fun os' m' => I [] (os ++ os') m') E from hgen [] m h
  clear h
  induction is with
  | nil =>
      intro os m h
      simpa only [Market.gather, sat_pure, List.append_nil] using h
  | cons i is ih =>
      intro os m h
      rw [Market.gather, sat_bind]
      apply (step i is os m h).imp
      intro o m' h'
      rw [sat_bind]
      apply (ih _ _ h').imp
      intro os' m'' h''
      rw [sat_pure, ← List.append_assoc]
      exact h''

theorem sat_gather_append {act : α → Action (Option β)} {is js : List α}
    {Q : List β → Market → Prop} {E : Error → Market → Prop} :
    (Market.gather act (is ++ js)).Sat m Q E ↔ (Market.gather act is).Sat m
      (fun os m' => (Market.gather act js).Sat m' (fun os' m'' => Q (os ++ os') m'') E) E := by
  induction is generalizing m Q with
  | nil => rfl
  | cons i is ih =>
      simp only [List.cons_append, Market.gather, sat_bind, ih, sat_pure, List.append_assoc]

end Action
end BondMarket
