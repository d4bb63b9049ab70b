import PackageRecipe.Lexeme.Basic

/-!
Number literals, one character at a time. A numeral is a run of digits in radix 2, 8 or 16 after its
mark, or a decimal with optional fraction, exponent and imaginary suffix. Single underscores may
stand between digits. Every run of digits obeys the same two states, `digits` and `gap`.
-/
namespace PackageRecipe.Lexeme

inductive Radix where
  | binary
  | octal
  | hexadecimal
  deriving DecidableEq

namespace Radix

/-- The letter that follows a leading `0`. -/
def ofMark? (c : Char) : Option Radix :=
  if c = 'b' || c = 'B' then some binary
  else if c = 'o' || c = 'O' then some octal
  else if c = 'x' || c = 'X' then some hexadecimal
  else none

def isDigit : Radix → Char → Bool
  | binary, c => c = '0' || c = '1'
  | octal, c => '0' ≤ c && c ≤ '7'
  | hexadecimal, c => c.isDigit || ('a' ≤ c && c ≤ 'f') || ('A' ≤ c && c ≤ 'F')

end Radix

/-- The part of a numeral that a run of digits belongs to. -/
inductive NumeralPart where
  | whole
  | fraction
  | exponent
  | based (r : Radix)
  deriving DecidableEq

def NumeralPart.isDigit : NumeralPart → Char → Bool
  | based r, c => r.isDigit c
  | _, c => c.isDigit

inductive Numeral where
  /-- A leading `0`, which a radix mark may follow. -/
  | zero
  /-- After a radix mark. -/
  | mark (r : Radix)
  /-- In the digits of a part; a fraction may have none. -/
  | digits (part : NumeralPart)
  /-- After an underscore. -/
  | gap (part : NumeralPart)
  /-- After `e`. -/
  | exponentMark
  /-- After the sign of an exponent. -/
  | exponentSign
  /-- After `j`, which ends the numeral. -/
  | imaginary
  deriving DecidableEq

namespace Numeral

/-- The numeral that begins with the digit `c`. -/
def ofDigit (c : Char) : Numeral :=
  if c = '0' then zero else digits .whole

/-- What may follow the digits of a part, other than its own digits and underscores: a point after
the whole part, an exponent after the whole part or the fraction, `j` after any decimal part. -/
def leave (part : NumeralPart) (c : Char) : Option Numeral :=
  if part = .whole && c = '.' then some (digits .fraction)
  else if (part = .whole || part = .fraction) && (c = 'e' || c = 'E') then some exponentMark
  else if (part = .whole || part = .fraction || part = .exponent) && (c = 'j' || c = 'J') then
    some imaginary
  else none

/-- One more character in the run of digits of a part. -/
def afterDigits (part : NumeralPart) (c : Char) : Option Numeral :=
  if part.isDigit c then some (digits part)
  else if c = '_' then some (gap part)
  else leave part c

/-- The digit that a part cannot do without. -/
def firstDigit (part : NumeralPart) (c : Char) : Option Numeral :=
  if part.isDigit c then some (digits part) else none

def step : Numeral → Char → Option Numeral
  | zero, c =>
    match Radix.ofMark? c with
    | some r => some (mark r)
    | none => afterDigits .whole c
  | mark r, c => if c = '_' then some (gap (.based r)) else firstDigit (.based r) c
  | digits part, c => afterDigits part c
  | gap part, c => firstDigit part c
  | exponentMark, c =>
    if c = '+' || c = '-' then some exponentSign else firstDigit .exponent c
  | exponentSign, c => firstDigit .exponent c
  | imaginary, _ => none

/-- Why the numeral may not end here; none if it may. -/
def fault? : Numeral → Option Fault
  | mark _ | gap _ => some .invalidNumber
  | exponentMark | exponentSign => some .invalidExponent
  | zero | digits _ | imaginary => none

end Numeral
end PackageRecipe.Lexeme
