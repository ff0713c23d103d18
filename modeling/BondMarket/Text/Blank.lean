/-!
White space at the ends of a text. The blank characters are those of the bidirectional classes
"separator" and "white space" and the space separators: the ASCII ones with the four information
separators, and the wide, narrow and no-break spaces.
-/

namespace BondMarket.Text

/-- A character that is cut off at the ends of a text. -/
def isBlank (c : Char) : Bool :=
  let n := c.toNat
  (0x09 ≤ n && n ≤ 0x0D) || (0x1C ≤ n && n ≤ 0x20) || n == 0x85 || n == 0xA0 || n == 0x1680 ||
    (0x2000 ≤ n && n ≤ 0x200A) || n == 0x2028 || n == 0x2029 || n == 0x202F || n == 0x205F ||
    n == 0x3000

/-- The list without the elements at both ends that satisfy `p`. -/
def trimBoth (p : α → Bool) (l : List α) : List α :=
  ((l.dropWhile p).reverse.dropWhile p).reverse

def trim (s : String) : List Char := trimBoth isBlank s.toList

def allBlank (s : String) : Bool := s.toList.all isBlank

theorem trimBoth_eq_self {p : α → Bool} {l : List α}
    (hhead : ∀ a ∈ l.head?, p a = false) (hlast : ∀ a ∈ l.getLast?, p a = false) :
    trimBoth p l = l := by
  have keep : ∀ {m : List α}, (∀ a ∈ m.head?, p a = false) → m.dropWhile p = m := by
    intro m hm
    cases m with
    | nil => rfl
    | cons a r => simp [List.dropWhile, hm a (by simp)]
  rw [trimBoth, keep hhead, keep (by simpa using hlast), List.reverse_reverse]

theorem isBlank_eq_false {c : Char} (hlow : 0x20 < c.toNat) (hhigh : c.toNat < 0x85) :
    isBlank c = false := by
  simp only [isBlank, Bool.or_eq_false_iff, Bool.and_eq_false_iff, decide_eq_false_iff_not,
    beq_eq_false_iff_ne]
  omega

theorem trimBoth_isBlank_eq_self {l : List Char}
    (h : ∀ x ∈ l, 0x20 < x.toNat ∧ x.toNat < 0x85) : trimBoth isBlank l = l := by
  have hblank : ∀ x ∈ l, isBlank x = false := fun x hx => isBlank_eq_false (h x hx).1 (h x hx).2
  exact trimBoth_eq_self (fun x hx => hblank x (List.mem_of_mem_head? hx))
    (fun x hx => hblank x (List.mem_of_getLast? hx))

theorem mem_of_mem_trimBoth {p : α → Bool} {l : List α} {a : α} (h : a ∈ trimBoth p l) : a ∈ l := by
  rw [trimBoth, List.mem_reverse] at h
  exact (List.dropWhile_sublist p).subset
    (List.mem_reverse.1 ((List.dropWhile_sublist p).subset h))

end BondMarket.Text
