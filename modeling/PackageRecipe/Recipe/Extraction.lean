import PackageRecipe.Declaration.Reading
import PackageRecipe.Phrase.Region
import PackageRecipe.Recipe.Basic

/-!
From phrases to a recipe. The first declaration divides the phrases: the text of those before it is
the header, the text of those after it that declare nothing is the footer.
-/
namespace PackageRecipe

/-- The call that a phrase consists of, if it declares something. -/
def Phrase.call? (p : Phrase) : Option Call :=
  match p.kind with
  | .version => some .version
  | .dependsOn => some .dependsOn
  | _ => none

/-- The phrase declares nothing. -/
def Phrase.isText (p : Phrase) : Bool := p.call?.isNone

/-- The text of a phrase's last line before its statement: what follows the last line break among
its leading blanks. -/
def Phrase.indent (p : Phrase) : String :=
  let lead := p.tokens.takeWhile Token.isBlank
  sourceText (lead.reverse.takeWhile fun t => !t.isBreak).reverse

/-- The calls among phrases. -/
def callStatements (phrases : List Phrase) : List (Call × List Token) :=
  phrases.filterMap fun p => p.call?.map fun call => (call, p.tokens)

/-- The declarations of a list of calls, or the error of the first that has one, and the unknown
keys met up to there, each with its call. -/
structure DeclarationsReading where
  result : Except CallError (List Declaration)
  unknown : List (Call × Token)

def DeclarationsReading.ofCalls : List (Call × List Token) → DeclarationsReading
  | [] => ⟨.ok [], []⟩
  | (call, tokens) :: calls =>
    let first := DeclarationReading.ofTokens call tokens
    let unknown := first.unknown.map fun key => (call, key)
    match first.result with
    | .error e => ⟨.error e, unknown⟩
    | .ok declaration =>
      let others := ofCalls calls
      ⟨others.result.map (declaration :: ·), unknown ++ others.unknown⟩

/-- The recipe that phrases make, and the unknown keys in their calls. -/
structure Extraction where
  recipe : Except CallError Recipe
  unknown : List (Call × Token)

/-- The recipe of phrases whose declarations are known. -/
def Recipe.ofDeclarations (phrases : List Phrase) (declarations : List Declaration) : Recipe :=
  let fromFirst := phrases.dropWhile Phrase.isText
  { header := phrasesText (phrases.takeWhile Phrase.isText)
    indent := (fromFirst.head?.map Phrase.indent).getD ""
    versions := declarations.filterMap Declaration.version?
    dependencies := declarations.filterMap Declaration.dependency?
    footer := phrasesText (fromFirst.filter Phrase.isText) }

def Extraction.ofPhrases (phrases : List Phrase) : Extraction :=
  let reading := DeclarationsReading.ofCalls (callStatements phrases)
  ⟨reading.result.map (Recipe.ofDeclarations phrases), reading.unknown⟩

namespace Recipe

/-- The recipe that phrases make. -/
def ofPhrases (phrases : List Phrase) : Except CallError Recipe :=
  (Extraction.ofPhrases phrases).recipe

/-- Reads a recipe from its source. -/
def ofSource (source : String) : Except RecipeError Recipe := do
  let tokens ← (Token.ofSource source).mapError .lexeme
  let phrases ← (Phrase.ofTokens tokens).mapError .phrase
  (ofPhrases phrases).mapError .call

end Recipe
end PackageRecipe
