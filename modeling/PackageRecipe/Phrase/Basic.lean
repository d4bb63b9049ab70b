import PackageRecipe.Token.Basic

/-!
Phrases: the statements and comment blocks that a recipe's tokens fall into. A phrase owns the line
breaks and the indentation before its statement, so the phrases of a recipe join to the recipe
again.
-/
namespace PackageRecipe

inductive Phrase.Kind where
  /-- A block of comments, or what is blank at the end. -/
  | remark
  /-- An `import` or `from` statement. -/
  | imports
  /-- `class Name(Base):`. -/
  | classHeader
  | homepage
  /-- A place to download from: `url`, `git` and the like. -/
  | location
  /-- A `version` call. -/
  | version
  /-- A `depends_on` call. -/
  | dependsOn
  /-- Any other statement of the class body. -/
  | other
  deriving DecidableEq

structure Phrase where
  kind : Phrase.Kind
  tokens : List Token
  deriving DecidableEq

def Phrase.text (p : Phrase) : String := sourceText p.tokens

/-- The text that a list of phrases covers. -/
def phrasesText (phrases : List Phrase) : String := sourceText (phrases.flatMap Phrase.tokens)

/-- Why a statement outside the class body is not one. -/
inductive PhraseFault where
  /-- Neither a comment nor an import nor a class header. -/
  | unexpectedStatement (found : String)
  /-- The text ends inside the brackets of a class header. -/
  | unclosedBrackets
  /-- A class header closes a bracket that it has not opened. -/
  | unmatchedBracket
  /-- A class header ends without its colon. -/
  | missingColon
  deriving DecidableEq

def PhraseFault.message : PhraseFault → String
  | .unexpectedStatement found => "unexpected statement starting with '" ++ found ++ "'"
  | .unclosedBrackets => "unclosed bracket in class header"
  | .unmatchedBracket => "unmatched closing bracket in class header"
  | .missingColon => "expected ':' after class header"

/-- A fault and the tokens from the end of the last whole phrase on. -/
structure PhraseError where
  fault : PhraseFault
  remaining : List Token
  deriving DecidableEq

def PhraseError.message (e : PhraseError) : String := e.fault.message

end PackageRecipe
