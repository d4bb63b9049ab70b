/-!
Tokens of a recipe. A token keeps the exact text it was read from, so the texts of a recipe's tokens
join to the recipe again. Nothing here says which texts a kind may have: a list of tokens is any
list.
-/
namespace PackageRecipe

inductive Token.Kind where
  /-- A name that is not reserved. -/
  | identifier
  | number
  /-- A string literal with its prefix letters and quotation marks. -/
  | string
  /-- A reserved name such as `class` or `True`. -/
  | keyword
  /-- Spaces, tabs and form feeds, or a line continuation. -/
  | whitespace
  /-- A run of line breaks. -/
  | newline
  /-- From `#` to before the line break. -/
  | comment
  /-- An arithmetic or comparison sign. -/
  | operator
  /-- A bracket, a separator or an assignment sign. -/
  | delimiter
  deriving DecidableEq

structure Token where
  kind : Token.Kind
  text : String
  deriving DecidableEq

/-- The text that a list of tokens was read from. -/
def sourceText (tokens : List Token) : String :=
  String.join (tokens.map Token.text)

@[simp] theorem sourceText_nil : sourceText [] = "" := rfl

@[simp] theorem sourceText_cons (t : Token) (ts : List Token) :
    sourceText (t :: ts) = t.text ++ sourceText ts := by
  simp [sourceText, String.join_cons]

theorem sourceText_append (ts us : List Token) :
    sourceText (ts ++ us) = sourceText ts ++ sourceText us := by
  induction ts with
  | nil => simp
  | cons t ts ih => simp [ih, String.append_assoc]

namespace Token

/-- A line break. -/
def isBreak (t : Token) : Bool := t.kind = .newline

/-- A comment. -/
def isComment (t : Token) : Bool := t.kind = .comment

/-- Line breaks and the white space between words. -/
def isBlank (t : Token) : Bool := t.kind = .newline || t.kind = .whitespace

/-- Blanks and comments: what carries no meaning inside a call. -/
def isFiller (t : Token) : Bool := t.isBlank || t.isComment

/-- The token has this kind and is written `text`. -/
def spells (kind : Kind) (text : String) (t : Token) : Bool := t.kind = kind && t.text = text

/-- The token is the delimiter written `text`. -/
def isDelimiter (text : String) (t : Token) : Bool := t.spells .delimiter text

/-- The token is the reserved name `text`. -/
def isKeyword (text : String) (t : Token) : Bool := t.spells .keyword text

/-- An opening bracket of any of the three shapes. -/
def isOpener (t : Token) : Bool := t.isDelimiter "(" || t.isDelimiter "[" || t.isDelimiter "\x7b"

/-- A closing bracket of any of the three shapes. -/
def isCloser (t : Token) : Bool := t.isDelimiter ")" || t.isDelimiter "]" || t.isDelimiter "\x7d"

/-- How many brackets are open after `t` if `depth` were open before it. A bracket closes any other,
whatever its shape, and a closing bracket with nothing open changes nothing. -/
def depthAfter (depth : Nat) (t : Token) : Nat :=
  if t.isOpener then depth + 1 else if t.isCloser then depth - 1 else depth

end Token
end PackageRecipe
