import PackageRecipe.Lexeme.Numeral
import PackageRecipe.Lexeme.Quoted

/-!
The lexemes of a recipe as one machine. `State.ofChar` is the state after a lexeme's first
character, `State.step` goes on by one character or refuses it, and `State.finish` names the token
that ends here or the fault that it leaves. A lexeme goes on as long as it can and is never taken
back, so where it ends depends on the one character after it.
-/
namespace PackageRecipe.Lexeme

/-- A character of the white space inside a line. -/
def isSpace (c : Char) : Bool := c = ' ' || c = '\t' || c = '\x0c'

inductive State where
  | space
  | lineBreak
  | comment
  /-- After a backslash outside a string, which a line break has to follow. -/
  | backslash
  /-- After a line continuation; `lineFeed` if it may still take the second half of its break. -/
  | continuation (lineFeed : Bool)
  /-- In a word; its letters so far, the last one first. -/
  | word (letters : List Char)
  | quoted (string : Quoted)
  | numeral (number : Numeral)
  /-- After `!`, which is no sign by itself. -/
  | exclamation
  /-- A sign, which a longer one may replace. -/
  | sign (text : List Char) (kind : Token.Kind)
  deriving DecidableEq

/-- The sign that `c` makes of the sign `text`. A point before a digit begins a fraction instead. -/
def extendSign (text : List Char) (c : Char) : Option State :=
  match signKind? (text ++ [c]) with
  | some kind => some (.sign (text ++ [c]) kind)
  | none => if text = ['.'] && c.isDigit then some (.numeral (.digits .fraction)) else none

namespace State

/-- The state after the first character of a lexeme. -/
def ofChar (c : Char) : Except Fault State :=
  if isSpace c then .ok space
  else if isLineBreak c then .ok lineBreak
  else if c = '\\' then .ok backslash
  else if c = '#' then .ok comment
  else if isQuote c then .ok (quoted (.opened c))
  else if c.isDigit then .ok (numeral (.ofDigit c))
  else if Text.opensName c then .ok (word [c])
  else if c = '!' then .ok exclamation
  else
    match signKind? [c] with
    | some kind => .ok (sign [c] kind)
    | none => .error (.unexpectedCharacter c)

/-- The state after one more character, if the lexeme goes on with it. -/
def step : State → Char → Option State
  | space, c => if isSpace c then some space else none
  | lineBreak, c => if isLineBreak c then some lineBreak else none
  | comment, c => if isLineBreak c then none else some comment
  | backslash, c => if isLineBreak c then some (continuation (c = '\r')) else none
  | continuation lineFeed, c => if lineFeed && c = '\n' then some (continuation false) else none
  | word letters, c =>
    if Text.extendsName c then some (word (c :: letters))
    else if isQuote c && opensString letters.reverse then some (quoted (.opened c))
    else none
  | quoted string, c => (string.step c).map quoted
  | numeral number, c => (number.step c).map numeral
  | exclamation, c => extendSign ['!'] c
  | sign text _, c => extendSign text c

/-- The kind of the lexeme that ends here, or why none does. `next` is the character after it. -/
def finish : State → Option Char → Except Fault Token.Kind
  | space, _ | continuation _, _ => .ok .whitespace
  | lineBreak, _ => .ok .newline
  | comment, _ => .ok .comment
  | backslash, _ => .error (.unexpectedCharacter '\\')
  | word letters, _ => .ok (wordKind letters.reverse)
  | quoted string, next =>
    match string.fault? next with
    | none => .ok .string
    | some fault => .error fault
  | numeral number, _ =>
    match number.fault? with
    | none => .ok .number
    | some fault => .error fault
  | exclamation, _ => .error (.invalidOperator '!')
  | sign _ kind, _ => .ok kind

end State

/-- How far a lexeme goes: the text it takes, the state in which it stops, and the text after it. -/
structure Run where
  taken : List Char
  last : State
  rest : List Char

/-- A character in front of what a run takes. -/
def Run.cons (c : Char) (run : Run) : Run := { run with taken := c :: run.taken }

/-- Goes on from a state as far as possible. -/
def State.run (state : State) : List Char → Run
  | [] => ⟨[], state, []⟩
  | c :: cs =>
    match state.step c with
    | none => ⟨[], state, c :: cs⟩
    | some next => (next.run cs).cons c

theorem State.run_taken_append_rest (state : State) (cs : List Char) :
    (state.run cs).taken ++ (state.run cs).rest = cs := by
  induction cs generalizing state with
  | nil => rfl
  | cons c cs ih =>
    rw [State.run]
    split
    · rfl
    · exact congrArg (List.cons c) (ih _)

end PackageRecipe.Lexeme
