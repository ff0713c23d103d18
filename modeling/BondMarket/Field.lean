import BondMarket.Decimal.Division
import BondMarket.Decimal.Parser
import BondMarket.Decimal.Root
import BondMarket.FloatingPoint
import BondMarket.Table

/-!
Values as they arrive in a request, before anything is known of their kind. Where a number is
needed a field is asked for one, and the refusal names the kind that was found instead. The
operators on decimals take a plain integer on either side; a product with one and a quotient by
one are computed on the raw value.

Sameness of fields does not carry over: a decimal is the same as an integer of its value, and so
are a flag and a floating-point number, but a decimal is the same as neither of these two.
-/

namespace BondMarket

/-- A value of a kind that is not yet known. -/
inductive Field where
  | int (n : Int)
  | dec (d : Dec)
  | text (s : String)
  | flag (b : Bool)
  | float (x : FloatingPoint)
  /-- A list or a table of values, by the name of its kind and the way it is shown. -/
  | group (kind form : String)
  | absent
deriving DecidableEq, Inhabited, Repr

namespace Field

def kindName : Field → String
  | int _ => "int"
  | dec _ => "Dec"
  | text _ => "str"
  | flag _ => "bool"
  | float _ => "float"
  | group kind _ => kind
  | absent => "NoneType"

/-- A field as a refusal shows it, texts quoted. -/
def shown : Field → String
  | int n => toString n
  | dec d => s!"Dec('{d}')"
  | text s => Text.quoted s
  | flag true => "True"
  | flag false => "False"
  | float x => x.text
  | group _ form => form
  | absent => "None"

def ofList (fs : List Field) : Field :=
  .group "list" ("[" ++ ", ".intercalate (fs.map shown) ++ "]")

def ofTable (fs : Table String Field) : Field :=
  let entry (p : String × Field) : String := s!"{Text.quoted p.1}: {p.2.shown}"
  .group "dict" ("\x7b" ++ ", ".intercalate (fs.map entry) ++ "\x7d")

def asText : Field → String
  | text s => s
  | dec d => d.text
  | f => f.shown

def int? : Field → Option Int
  | int n => some n
  | _ => none

def dec? : Field → Option Dec
  | dec d => some d
  | _ => none

/-- The operand of a decimal operator: a decimal, or an integer as one. -/
def operand : Field → Result Dec
  | dec d => .ok d
  | int n => .ok (.ofInt n)
  | f => (Fault.notADecimal f.kindName).fail

def rawDec : Field → Result Dec
  | int n => .ok ⟨n⟩
  | _ => Fault.rawNotInteger.fail

def integerDec : Field → Result Dec
  | int n => .ok (.ofInt n)
  | f => (Fault.expectedInteger f.kindName).fail

def parsedDec : Field → Result Dec
  | text s => Dec.parse s
  | _ => Fault.expectedText.fail

/-- A decimal from a decimal, an integer or a written form. -/
def toDec : Field → Result Dec
  | dec d => .ok d
  | text s => Dec.parse s
  | f => f.integerDec

def add (a b : Field) : Result Dec := do return (← a.operand) + (← b.operand)

def sub (a b : Field) : Result Dec := do return (← a.operand) - (← b.operand)

def mul : Field → Field → Result Dec
  | int n, b => do return (← b.operand).times n
  | a, int n => do return (← a.operand).times n
  | a, b => do return (← a.operand) * (← b.operand)

def div : Field → Field → Result Dec
  | a, int n => do (← a.operand).divInt n
  | a, b => do (← a.operand).div (← b.operand)

def less (a b : Field) : Result Bool := do return decide ((← a.operand) < (← b.operand))

def lessEq (a b : Field) : Result Bool := do return decide ((← a.operand) ≤ (← b.operand))

def greater (a b : Field) : Result Bool := do return decide ((← b.operand) < (← a.operand))

def greaterEq (a b : Field) : Result Bool := do return decide ((← b.operand) ≤ (← a.operand))

/-- The integer that a plain value counts as in comparisons: a flag counts as 0 or 1. -/
def plainInt? : Field → Option Int
  | int n => some n
  | flag b => some (if b then 1 else 0)
  | float x => x.int?
  | _ => none

/-- Whether two fields are the same. Decimals compare with decimals and integers; integers, flags
and floating-point numbers compare with each other; any other field is the same only as
itself. -/
def same : Field → Field → Bool
  | dec x, dec y => x = y
  | dec x, int n | int n, dec x => x = .ofInt n
  | a, b =>
    match a.plainInt?, b.plainInt? with
    | some m, some n => m = n
    | _, _ => a = b

/-- The number of different fields, counted one after another: a field that is the same as one
already counted is passed over. -/
def countDistinct (fs : List Field) : Nat :=
  (fs.foldl (fun kept f => if kept.any f.same then kept else f :: kept) []).length

example : countDistinct [flag true, dec .one, int 1] = 2 := by decide +kernel
example : countDistinct [int 1, flag true, dec .one] = 1 := by decide +kernel

def power (d : Dec) : Field → Result Dec
  | int n => d.powerInt n
  | f => (Fault.badExponent f.shown).fail

def root (d : Dec) (f : Field) (steps : Int) : Result Dec :=
  match f with
  | int k => d.approxRoot k steps
  | f => (Fault.badRoot f.shown).fail

end Field
end BondMarket
