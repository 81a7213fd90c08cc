import Phrasebook.Arguments

/-!
# Guards and conditions

A guard decides for which arguments a variant of a phrase is meant. It is an
arbitrary function; it may also abort. A condition is a guard that is written
down.
-/

namespace Phrasebook

inductive Verdict
  | holds
  | fails
  | aborts (reason : String)
  deriving DecidableEq

namespace Verdict

def ofBool (b : Bool) : Verdict := if b then .holds else .fails

def not : Verdict → Verdict
  | .holds => .fails
  | .fails => .holds
  | .aborts reason => .aborts reason

end Verdict

abbrev Guard := Arguments → Verdict

inductive Condition
  | always
  | never
  | abort (reason : String)
  | has (name : String)
  | isText (name text : String)
  /-- As `isText`, but it aborts where there is no such argument. -/
  | takenIsText (name text : String)
  | isValue (name : String) (value : Value)
  | numberIs (name : String) (n : Int64)
  | numberBelow (name : String) (n : Int64)
  | floatBelow (name : String) (x : Float)
  | boolIs (name : String) (b : Bool)
  | starts (name text : String)
  | count (n : Int)
  | firstIs (name : String)
  | not (condition : Condition)
  | all (conditions : List Condition)
  | any (conditions : List Condition)

namespace Condition

def argument (arguments : Arguments) (name : String) (test : Value → Bool) : Verdict :=
  .ofBool ((arguments.get? name).any test)

mutual

def eval (arguments : Arguments) : Condition → Verdict
  | .always => .holds
  | .never => .fails
  | .abort reason => .aborts reason
  | .has name => .ofBool (arguments.contains name)
  | .isText name text => argument arguments name (·.isText text)
  | .takenIsText name text =>
    match arguments.get name with
    | .ok value => .ofBool (value.isText text)
    | .error reason => .aborts reason
  | .isValue name value => argument arguments name (· == value)
  | .numberIs name n => argument arguments name (·.asNumber.any (· == n))
  | .numberBelow name n => argument arguments name (·.asNumber.any (· < n))
  | .floatBelow name x => argument arguments name (·.asFloat.any (· < x))
  | .boolIs name b => argument arguments name (·.asBool.any (· == b))
  | .starts name text =>
    argument arguments name (·.asString.any fun s => text.toList.isPrefixOf s.toList)
  | .count n => .ofBool (arguments.size == n)
  | .firstIs name => .ofBool (arguments.names.head? == some name)
  | .not condition => (eval arguments condition).not
  | .all conditions => evalAll arguments conditions
  | .any conditions => evalAny arguments conditions

/-- From left to right up to the first condition that does not hold. -/
def evalAll (arguments : Arguments) : List Condition → Verdict
  | [] => .holds
  | condition :: conditions =>
    match eval arguments condition with
    | .holds => evalAll arguments conditions
    | verdict => verdict

/-- From left to right up to the first condition that does not fail. -/
def evalAny (arguments : Arguments) : List Condition → Verdict
  | [] => .fails
  | condition :: conditions =>
    match eval arguments condition with
    | .fails => evalAny arguments conditions
    | verdict => verdict

end

def guard (condition : Condition) : Guard := fun arguments => condition.eval arguments

end Condition

end Phrasebook
