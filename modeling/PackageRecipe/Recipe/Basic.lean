import PackageRecipe.Call.Basic
import PackageRecipe.Declaration.Basic
import PackageRecipe.Phrase.Basic
import PackageRecipe.Token.Reading

/-!
A recipe with its declarations taken out: what they declare, and the text around them as it stands
in the source. A recipe is text again with its header, then each declaration on a line of its own,
then its footer; versions come before dependencies, whatever their order in the source was.
-/
namespace PackageRecipe

structure Recipe where
  /-- The text before the first declaration. -/
  header : String
  /-- The white space that the line of the first declaration begins with. -/
  indent : String
  versions : List Version
  dependencies : List Dependency
  /-- The text after the first declaration without the declarations. -/
  footer : String
  deriving DecidableEq

/-- Why a source is not a recipe: the first fault of the earliest stage that has one. -/
inductive RecipeError where
  | lexeme (e : LexemeError)
  | phrase (e : PhraseError)
  | call (e : CallError)
  deriving DecidableEq

def RecipeError.message : RecipeError → String
  | lexeme e => e.message
  | phrase e => e.message
  | call e => e.message

namespace Recipe

/-- The texts of a recipe's declarations. -/
def declarationTexts (r : Recipe) : List String :=
  r.versions.map Version.text ++ r.dependencies.map Dependency.text

def text (r : Recipe) : String :=
  r.header ++ String.join (r.declarationTexts.map fun call => "\n" ++ r.indent ++ call) ++ r.footer

end Recipe
end PackageRecipe
