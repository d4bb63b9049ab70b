import PackageRecipe.Call.Arguments

/-!
From a call to the declaration that it makes, and what every such declaration fulfils. If a key is
given more than once, its last value counts. What stands after the closing parenthesis is not looked
at.
-/
namespace PackageRecipe

open Call

/-- Sets one slot of a version. -/
def Version.set (v : Version) : Setting .version → Version
  | .pin argument => { v with pin := some argument }
  | .source argument => { v with source := some argument }
  | .preferred value => { v with preferred := some value }

/-- Sets one slot of a dependency. -/
def Dependency.set (d : Dependency) : Setting .dependsOn → Dependency
  | .types values => { d with types := values }
  | .condition value => { d with condition := some value }

/-- The declaration of a call whose first argument is `first`. -/
def Declaration.ofSettings (first : Token) : (call : Call) → List (Setting call) → Declaration
  | .version, settings => .version (settings.foldl Version.set ⟨first, none, none, none⟩)
  | .dependsOn, settings => .dependency (settings.foldl Dependency.set ⟨first, [], none⟩)

/-- What reading a call gives: the declaration or the error, and the keys that the call does not
know among those read. -/
structure DeclarationReading where
  result : Except CallError Declaration
  unknown : List Token

/-- Reads the tokens of a call statement. -/
def DeclarationReading.ofTokens (call : Call) (tokens : List Token) : DeclarationReading :=
  match opening tokens with
  | .error fault => ⟨.error ⟨call, fault⟩, []⟩
  | .ok (first, rest) =>
    let arguments := Arguments.read call rest
    match arguments.outcome with
    | .error fault => ⟨.error ⟨call, fault⟩, arguments.unknown⟩
    | .ok _ => ⟨.ok (.ofSettings first call arguments.settings), arguments.unknown⟩

/-- The argument has one of the keys and a literal value. -/
structure Argument.WellFormed (Literal : Token → Prop) (keys : List String) (a : Argument) :
    Prop where
  key_isKey : isKey a.key = true
  key_mem : a.key.text ∈ keys
  value : Literal a.value

/-- What every version of a recipe fulfils, whichever tokens count as string literals. -/
structure Version.WellFormed (Literal : Token → Prop) (v : Version) : Prop where
  name : Literal v.name
  pin : ∀ a ∈ v.pin, a.WellFormed Literal pinKeys
  source : ∀ a ∈ v.source, a.WellFormed Literal sourceKeys
  preferred : ∀ t ∈ v.preferred, t = ⟨.keyword, "True"⟩ ∨ t = ⟨.keyword, "False"⟩

/-- What every dependency of a recipe fulfils; it has no more types than a list may name. -/
structure Dependency.WellFormed (Literal : Token → Prop) (d : Dependency) : Prop where
  spec : Literal d.spec
  types : ∀ t ∈ d.types, Literal t
  types_length : d.types.length ≤ typeLimit
  condition : ∀ t ∈ d.condition, Literal t

end PackageRecipe
