import BondMarket.Field
import BondMarket.Table

/-!
The families of pricing functions and their parameters. Three of them are curves over the supply;
the fourth, the swapper, prices from the two reserves of a pool and takes no parameters. The
parameters of a request have to be exactly the family's own, none of them negative, and each
family adds conditions of its own.
-/

namespace BondMarket

/-- A family of pricing functions. -/
inductive FunctionType where
  | power
  | sigmoid
  | augmented
  | swapper
deriving DecidableEq, Repr

abbrev Params := Table String Dec

def Params.value (ps : Params) (name : String) : Result Dec :=
  match Table.get? ps name with
  | some d => .ok d
  | none => (Fault.missingParameter name).fail

namespace FunctionType

def text : FunctionType → String
  | power => "power_function"
  | sigmoid => "sigmoid_function"
  | augmented => "augmented_function"
  | swapper => "swapper_function"

def parse (s : String) : Result FunctionType :=
  match [power, sigmoid, augmented, swapper].find? fun t => t.text == s with
  | some t => .ok t
  | none => reject .unrecognizedFunctionType s

def parameterNames : FunctionType → List String
  | power => ["m", "n", "c"]
  | sigmoid => ["a", "b", "c"]
  | augmented => ["d0", "p0", "theta", "kappa"]
  | swapper => []

def reserveTokenCount : FunctionType → Nat
  | swapper => 2
  | _ => 1

/-- The parameters are named as the family asks, in any order. -/
def checkNames (t : FunctionType) (names : List String) : Result Unit :=
  if sortedTexts names = sortedTexts t.parameterNames then .ok ()
  else
    let expected :=
      if t.parameterNames = [] then "none" else String.intercalate ", " t.parameterNames
    reject .invalidFunctionParameter s!"{t.text} expects parameters {expected}"

def checkSign (name : String) (value : Dec) : Result Unit :=
  rejectIf value.isNegative .invalidFunctionParameter s!"{name} cannot be negative"

def require (condition : Bool) (detail : String) : Result Unit :=
  rejectIf (!condition) .invalidFunctionParameter detail

def checkShape (t : FunctionType) (ps : Params) : Result Unit :=
  match t with
  | power => do
    require (← ps.value "n").isInteger "n must be an integer"
  | sigmoid => do
    require (!(← ps.value "c").isZero) "c cannot be zero"
  | augmented => do
    let d0 ← ps.value "d0"
    require (!d0.isZero && d0.isInteger) "d0 must be a positive integer"
    require (!(← ps.value "p0").isZero) "p0 must be positive"
    require (decide ((← ps.value "theta") < Dec.one)) "theta must be in [0, 1)"
    let kappa ← ps.value "kappa"
    require (!kappa.isZero && kappa.isInteger) "kappa must be a positive integer"
  | swapper => .ok ()

/-- Checks the parameters of a request, their signs in order. -/
def validate (t : FunctionType) (ps : Params) : Result Unit := do
  t.checkNames (Table.keys ps)
  let _ ← Table.traverse checkSign ps
  t.checkShape ps

def checkField (name : String) (field : Field) : Result Dec :=
  match field.dec? with
  | none => (Fault.parameterNotDecimal name).fail
  | some value => do
    checkSign name value
    return value

def validateFields (t : FunctionType) (fs : Table String Field) : Result Unit := do
  t.checkNames (Table.keys fs)
  t.checkShape (← Table.traverse checkField fs)

end FunctionType
end BondMarket
