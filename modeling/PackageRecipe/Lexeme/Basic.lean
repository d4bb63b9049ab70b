import PackageRecipe.Text.Character
import PackageRecipe.Token.Basic

/-!
The vocabulary of the language: its signs, its reserved words, the letters that may stand before a
string's quotation mark, and the faults of a text that cannot be cut into lexemes.

Every sign of more than one character is an extension of a shorter one by one character, `!=` alone
excepted, so the longest sign is found by going on while the text so far is a sign.
-/
namespace PackageRecipe.Lexeme

/-- Arithmetic, bitwise and comparison signs, and the assignment expression. -/
def operatorSigns : List String :=
  ["+", "-", "*", "**", "/", "//", "%", "@", "<<", ">>", "&", "|", "^", "~", ":=", "<", ">", "<=",
    ">=", "==", "!="]

/-- Brackets, separators, the arrow, and assignment statements. -/
def delimiterSigns : List String :=
  ["(", ")", "[", "]", "\x7b", "\x7d", ",", ":", ".", ";", "=", "->", "+=", "-=", "*=", "**=", "/=",
    "//=", "%=", "@=", "<<=", ">>=", "&=", "|=", "^="]

def signKind? (sign : List Char) : Option Token.Kind :=
  if String.ofList sign ∈ operatorSigns then some .operator
  else if String.ofList sign ∈ delimiterSigns then some .delimiter
  else none

def reservedWords : List String :=
  ["False", "None", "True", "and", "as", "assert", "async", "await", "break", "class", "continue",
    "def", "del", "elif", "else", "except", "finally", "for", "from", "global", "if", "import",
    "in", "is", "lambda", "nonlocal", "not", "or", "pass", "raise", "return", "try", "while",
    "with", "yield"]

def wordKind (word : List Char) : Token.Kind :=
  if String.ofList word ∈ reservedWords then .keyword else .identifier

/-- Prefixes of a string literal, in lower case: raw, bytes, formatted, plain text, and raw with
bytes or formatted in either order. -/
def stringPrefixes : List String := ["r", "b", "f", "u", "rb", "br", "rf", "fr"]

/-- The word makes a string of a quotation mark that follows it at once. Case does not matter. -/
def opensString (word : List Char) : Bool :=
  String.ofList (word.map Char.toLower) ∈ stringPrefixes

/-- Why a text cannot be cut into lexemes. A fault is a cause; where it happened is added by the
reader of the whole text. -/
inductive Fault where
  /-- A digit separator or a radix mark without a digit after it. -/
  | invalidNumber
  /-- An exponent mark without a digit after it. -/
  | invalidExponent
  /-- The text ends inside a string. -/
  | unterminatedString
  /-- A line ends inside a string that must stay on one line. -/
  | newlineInString
  /-- A character that is only the beginning of an operator. -/
  | invalidOperator (c : Char)
  /-- A character that begins nothing. -/
  | unexpectedCharacter (c : Char)
  deriving DecidableEq

/-- The fault in words. -/
def Fault.message : Fault → String
  | .invalidNumber => "invalid number literal"
  | .invalidExponent => "invalid exponent"
  | .unterminatedString => "unterminated string"
  | .newlineInString => "newline in string"
  | .invalidOperator c => "invalid operator: " ++ c.toString
  | .unexpectedCharacter c => "unexpected character: " ++ Text.quoteChar c

end PackageRecipe.Lexeme
