/-!
The two calls that declare something, and what can be wrong with one.
-/
namespace PackageRecipe

inductive Call where
  | version
  | dependsOn
  deriving DecidableEq

/-- The name that is called. -/
def Call.name : Call → String
  | version => "version"
  | dependsOn => "depends_on"

/-- What the grammar of a call asks for at some place. -/
inductive Expectation where
  | openParenthesis
  | string
  | commaOrClose
  | assignment
  | boolean
  | key
  deriving DecidableEq

def Expectation.words : Expectation → String
  | openParenthesis => "'('"
  | string => "a string"
  | commaOrClose => "',' or ')'"
  | assignment => "'='"
  | boolean => "True or False"
  | key => "a keyword argument"

inductive CallFault where
  /-- Something else stands where the grammar asks for `what`, or nothing does. -/
  | expected (what : Expectation) (found : Option String)
  /-- The list of a dependency's types is longer than it may be. -/
  | tooManyTypes
  deriving DecidableEq

def CallFault.message : CallFault → String
  | expected what none => "expected " ++ what.words
  | expected what (some found) => "expected " ++ what.words ++ ", got '" ++ found ++ "'"
  | tooManyTypes => "too many arguments to type"

/-- A fault and the call that has it. -/
structure CallError where
  call : Call
  fault : CallFault
  deriving DecidableEq

def CallError.message (e : CallError) : String :=
  e.fault.message ++ " in " ++ e.call.name ++ "(...)"

end PackageRecipe
