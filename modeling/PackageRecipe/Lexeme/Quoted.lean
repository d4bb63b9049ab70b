import PackageRecipe.Lexeme.Basic

/-!
String literals, one character at a time, from the opening quotation mark on. Two marks in a row are
the empty string, three open a long string, which three unescaped marks in a row close. A backslash
takes the next character with it, whatever it is. Only a long string may hold a line break
unescaped.
-/
namespace PackageRecipe.Lexeme

def isQuote (c : Char) : Bool := c = '"' || c = '\''

def isLineBreak (c : Char) : Bool := c = '\n' || c = '\r'

/-- Where the reader of a string stands; `q` is its quotation mark. -/
inductive Quoted where
  /-- After one mark. -/
  | opened (q : Char)
  /-- After two marks: the empty string, unless a third follows. -/
  | empty (q : Char)
  | short (q : Char)
  | shortEscape (q : Char)
  /-- In a long string whose last characters are `marks` unescaped marks. -/
  | long (q : Char) (marks : Nat)
  | longEscape (q : Char)
  | closed
  deriving DecidableEq

namespace Quoted

def shortStep (q c : Char) : Option Quoted :=
  if c = '\\' then some (shortEscape q)
  else if isLineBreak c then none
  else if c = q then some closed
  else some (short q)

def step : Quoted → Char → Option Quoted
  | opened q, c => if c = q then some (empty q) else shortStep q c
  | empty q, c => if c = q then some (long q 0) else none
  | short q, c => shortStep q c
  | shortEscape q, _ => some (short q)
  | long q marks, c =>
    if c = '\\' then some (longEscape q)
    else if c = q then
      if marks = 2 then some closed else some (long q (marks + 1))
    else some (long q 0)
  | longEscape q, _ => some (long q 0)
  | closed, _ => none

/-- Why the string may not end before `next`, the character that follows if any; none if it may. A
short string that cannot go on has met a line break or the end of the text. -/
def fault? : Quoted → Option Char → Option Fault
  | empty _, _ | closed, _ => none
  | opened _, some _ | short _, some _ => some .newlineInString
  | _, _ => some .unterminatedString

end Quoted
end PackageRecipe.Lexeme
