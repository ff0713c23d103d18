/-!
Finite tables: the pairs of a finite map in the order in which their keys were first entered.
A key occurs at most once in the tables this library builds; where one occurs twice, the first
pair counts. What a table holds under a key is `get?`, and every operation says what it does to
that view.
-/

namespace BondMarket

/-- A table of values of type `α` under keys of type `κ`. -/
abbrev Table (κ α : Type) := List (κ × α)

namespace Table

variable {κ α : Type} [DecidableEq κ]

def get? : Table κ α → κ → Option α
  | [], _ => none
  | (k', v) :: t, k => if k' = k then some v else get? t k

def contains (t : Table κ α) (k : κ) : Bool := (get? t k).isSome

def keys (t : Table κ α) : List κ := t.map (·.1)

/-- Puts a value under a key: in the place of the old one, or at the end. -/
def set : Table κ α → κ → α → Table κ α
  | [], k, v => [(k, v)]
  | (k', v') :: t, k, v => if k' = k then (k, v) :: t else (k', v') :: set t k v

def erase (t : Table κ α) (k : κ) : Table κ α := t.filter fun p => p.1 ≠ k

def mapValues {β : Type} (f : κ → α → β) (t : Table κ α) : Table κ β :=
  t.map fun p => (p.1, f p.1 p.2)

/-- Applies a function that may fail to every value, in the order of the table; the first failure
decides. -/
def traverse {ε β : Type} (f : κ → α → Except ε β) : Table κ α → Except ε (Table κ β)
  | [] => .ok []
  | (k, v) :: t => do
    let w ← f k v
    let rest ← traverse f t
    return (k, w) :: rest

def ofKeys (ks : List κ) (f : κ → α) : Table κ α := ks.foldl (fun t k => set t k (f k)) []

theorem get?_set (t : Table κ α) (k k' : κ) (v : α) :
    get? (set t k v) k' = if k = k' then some v else get? t k' := by
  induction t with
  | nil => rfl
  | cons p t ih => grind [set, get?]

theorem get?_set_self (t : Table κ α) (k : κ) (v : α) : get? (set t k v) k = some v := by
  simp [get?_set]

theorem get?_set_of_ne (t : Table κ α) {k k' : κ} (h : k ≠ k') (v : α) :
    get? (set t k v) k' = get? t k' := by
  simp [get?_set, h]

theorem get?_erase (t : Table κ α) (k k' : κ) :
    get? (erase t k) k' = if k = k' then none else get? t k' := by
  induction t with
  | nil => simp [erase, get?]
  | cons p t ih => grind [erase, get?]

theorem get?_mapValues {β : Type} (f : κ → α → β) (t : Table κ α) (k : κ) :
    get? (mapValues f t) k = (get? t k).map (f k) := by
  induction t with
  | nil => rfl
  | cons p t ih => grind [mapValues, get?]

theorem get?_eq_none_iff {t : Table κ α} {k : κ} : get? t k = none ↔ k ∉ keys t := by
  induction t with
  | nil => simp [get?, keys]
  | cons p t ih => grind [get?, keys]

omit [DecidableEq κ] in
theorem traverse_eq_ok {ε β : Type} {f : κ → α → Except ε β} {g : κ → α → β} {t : Table κ α}
    (h : ∀ p ∈ t, f p.1 p.2 = .ok (g p.1 p.2)) : traverse f t = .ok (mapValues g t) := by
  induction t with
  | nil => rfl
  | cons p t ih =>
    have hp := h p (by simp)
    have ht := ih fun q hq => h q (by simp [hq])
    simp only [traverse, hp, ht]
    rfl

theorem get?_of_traverse {ε β : Type} {f : κ → α → Except ε β} {t : Table κ α} {u : Table κ β}
    (h : traverse f t = .ok u) {k : κ} {v : α} (hv : get? t k = some v) :
    ∃ w, f k v = .ok w ∧ get? u k = some w := by
  induction t generalizing u with
  | nil => simp [get?] at hv
  | cons p t ih =>
    cases hp : f p.1 p.2 with
    | error e => simp [traverse, hp, bind, Except.bind] at h
    | ok w =>
      cases ht : traverse f t with
      | error e => simp [traverse, hp, ht, bind, Except.bind] at h
      | ok u' =>
        have hu : u = (p.1, w) :: u' := by
          simpa [traverse, hp, ht, bind, Except.bind, pure, Except.pure, eq_comm] using h
        subst hu
        by_cases e : p.1 = k
        · refine ⟨w, ?_, by simp [get?, e]⟩
          simp only [get?, e, if_true, Option.some.injEq] at hv
          rw [← e, ← hv, hp]
        · simpa [get?, e] using ih ht (by simpa [get?, e] using hv)

theorem keys_set (t : Table κ α) (k : κ) (v : α) :
    keys (set t k v) = if k ∈ keys t then keys t else keys t ++ [k] := by
  induction t with
  | nil => simp [set, keys]
  | cons p t ih => grind [set, keys]

theorem get?_ofKeys (ks : List κ) (f : κ → α) (k : κ) :
    get? (ofKeys ks f) k = if k ∈ ks then some (f k) else none := by
  suffices h : ∀ t : Table κ α, get? (ks.foldl (fun t k => set t k (f k)) t) k =
      if k ∈ ks then some (f k) else get? t k from h []
  induction ks with
  | nil => simp
  | cons a ks ih =>
    intro t
    rw [List.foldl_cons, ih, get?_set]
    by_cases hk : k ∈ ks
    · simp [hk]
    · by_cases ha : a = k
      · simp [hk, ha]
      · simp [hk, ha, Ne.symm ha]

/-! ### Tables in the order of their keys

Keys that are texts are ordered by code point. Sorting inserts the pairs one by one, so that
pairs of one key keep their order and the first still counts. -/

/-- Inserts a pair before the first pair of a key that is not smaller. -/
def insertSorted (k : String) (v : α) : Table String α → Table String α
  | [] => [(k, v)]
  | p :: t => if k ≤ p.1 then (k, v) :: p :: t else p :: insertSorted k v t

def sorted : Table String α → Table String α
  | [] => []
  | (k, v) :: t => insertSorted k v (sorted t)

theorem get?_insertSorted (k : String) (v : α) (t : Table String α) (k' : String) :
    get? (insertSorted k v t) k' = if k = k' then some v else get? t k' := by
  induction t with
  | nil => rfl
  | cons p t ih =>
    simp only [insertSorted]
    split
    · rfl
    · rename_i h
      have hne : p.1 ≠ k := fun e => h (e ▸ String.le_refl _)
      grind [get?]

theorem get?_sorted (t : Table String α) (k : String) : get? (sorted t) k = get? t k := by
  induction t with
  | nil => rfl
  | cons p t ih => rw [sorted, get?_insertSorted, get?, ih]

end Table

/-- Texts in increasing order, one after another where they are equal. -/
def sortedTexts : List String → List String
  | [] => []
  | s :: r => insertText s (sortedTexts r)
where
  insertText (s : String) : List String → List String
    | [] => [s]
    | t :: r => if s ≤ t then s :: t :: r else t :: insertText s r

end BondMarket
