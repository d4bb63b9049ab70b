import PackageRecipe.Lexeme.Quoted

/-!
The written forms of literals, as grammars. They say which texts are numbers and which are strings
without saying how one is read; the readers go from left to right and never look at a form as a
whole.
-/
namespace PackageRecipe.Lexeme

/-- Any number of digits, each with at most one underscore before it. -/
inductive DigitsForm (isDigit : Char → Bool) : List Char → Prop where
  | nil : DigitsForm isDigit []
  | digit {c : Char} {cs : List Char} :
      isDigit c = true → DigitsForm isDigit cs → DigitsForm isDigit (c :: cs)
  | separated {c : Char} {cs : List Char} :
      isDigit c = true → DigitsForm isDigit cs → DigitsForm isDigit ('_' :: c :: cs)

/-- An exponent, or nothing. -/
inductive ExponentForm : List Char → Prop where
  | absent : ExponentForm []
  | present {mark c : Char} {sign cs : List Char} :
      mark = 'e' ∨ mark = 'E' → sign = [] ∨ sign = ['+'] ∨ sign = ['-'] → c.isDigit = true →
      DigitsForm Char.isDigit cs → ExponentForm (mark :: sign ++ c :: cs)

/-- The suffix of an imaginary number, or nothing. -/
inductive ImaginaryForm : List Char → Prop where
  | absent : ImaginaryForm []
  | present {mark : Char} : mark = 'j' ∨ mark = 'J' → ImaginaryForm [mark]

/-- The digits of a decimal literal, with a point after some of them, before all, or nowhere. -/
inductive DecimalForm : List Char → Prop where
  | whole {c : Char} {cs : List Char} :
      c.isDigit = true → DigitsForm Char.isDigit cs → DecimalForm (c :: cs)
  | pointed {c : Char} {cs fs : List Char} :
      c.isDigit = true → DigitsForm Char.isDigit cs → DigitsForm Char.isDigit fs →
      DecimalForm (c :: cs ++ '.' :: fs)
  | fraction {c : Char} {cs : List Char} :
      c.isDigit = true → DigitsForm Char.isDigit cs → DecimalForm ('.' :: c :: cs)

/-- The letter behind the leading zero of a number in another radix than ten, and the digits of that
radix. -/
inductive RadixForm : Char → List Char → Prop where
  | binary {mark : Char} : mark = 'b' ∨ mark = 'B' → RadixForm mark ['0', '1']
  | octal {mark : Char} :
      mark = 'o' ∨ mark = 'O' → RadixForm mark ['0', '1', '2', '3', '4', '5', '6', '7']
  | hexadecimal {mark : Char} :
      mark = 'x' ∨ mark = 'X' →
      RadixForm mark ['0', '1', '2', '3', '4', '5', '6', '7', '8', '9', 'a', 'b', 'c', 'd', 'e',
        'f', 'A', 'B', 'C', 'D', 'E', 'F']

/-- A number literal. -/
inductive NumberForm : List Char → Prop where
  | based {mark : Char} {digits cs : List Char} :
      RadixForm mark digits → cs ≠ [] → DigitsForm (· ∈ digits) cs →
      NumberForm ('0' :: mark :: cs)
  | decimal {ds es js : List Char} :
      DecimalForm ds → ExponentForm es → ImaginaryForm js → NumberForm (ds ++ es ++ js)

/-- Contents of a string with one mark at either end. -/
inductive ShortContents (q : Char) : List Char → Prop where
  | nil : ShortContents q []
  | plain {c : Char} {cs : List Char} :
      c ≠ '\\' → c ≠ q → isLineBreak c = false → ShortContents q cs → ShortContents q (c :: cs)
  | escape {c : Char} {cs : List Char} : ShortContents q cs → ShortContents q ('\\' :: c :: cs)

/-- Contents of a string with three marks at either end: nowhere unescaped do three marks begin in
the contents and the marks after them. -/
inductive LongContents (q : Char) : List Char → Prop where
  | nil : LongContents q []
  | plain {c : Char} {cs : List Char} :
      c ≠ '\\' → ¬ [q, q, q] <+: c :: cs ++ [q, q, q] → LongContents q cs → LongContents q (c :: cs)
  | escape {c : Char} {cs : List Char} : LongContents q cs → LongContents q ('\\' :: c :: cs)

/-- What stands around the contents of a string literal. -/
structure Quotation where
  /-- The prefix letters. -/
  letters : List Char
  mark : Char
  /-- Three marks at either end, not one. -/
  long : Bool
  letters_open : letters = [] ∨ opensString letters = true
  mark_isQuote : isQuote mark = true

namespace Quotation

/-- The marks at either end. -/
def marks (q : Quotation) : List Char :=
  if q.long then [q.mark, q.mark, q.mark] else [q.mark]

/-- The literal with these contents. -/
def literal (q : Quotation) (contents : List Char) : List Char :=
  q.letters ++ q.marks ++ contents ++ q.marks

/-- The contents may stand in this quotation. -/
def Holds (q : Quotation) (contents : List Char) : Prop :=
  if q.long then LongContents q.mark contents else ShortContents q.mark contents

end Quotation
end PackageRecipe.Lexeme
