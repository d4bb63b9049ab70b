import PackageRecipe.Lexeme.State

/-!
From a text to its tokens. Reading goes from left to right, one lexeme after the other, and stops at
the first that is faulty. The tokens read before a fault are kept, since their text says where the
fault is. Places are counted as a reader counts them: lines from 1 and, within a line, characters
from 1. Only a line feed begins a new line; a carriage return is one more column.
-/
namespace PackageRecipe

namespace Text

structure Position where
  line : Nat
  column : Nat
  deriving DecidableEq

namespace Position

/-- Where a text begins. -/
def start : Position := ⟨1, 1⟩

/-- The place one character further on. -/
def next (p : Position) (c : Char) : Position :=
  if c = '\n' then ⟨p.line + 1, 1⟩ else ⟨p.line, p.column + 1⟩

/-- The place right after `text`, if the text begins at `p`. -/
def after (p : Position) (text : List Char) : Position :=
  text.foldl next p

@[simp] theorem after_nil (p : Position) : p.after [] = p := rfl

@[simp] theorem after_cons (p : Position) (c : Char) (cs : List Char) :
    p.after (c :: cs) = (p.next c).after cs := rfl

theorem after_append (p : Position) (xs ys : List Char) :
    p.after (xs ++ ys) = (p.after xs).after ys := by
  simp only [after, List.foldl_append]

end Position
end Text

open Lexeme

/-- The first token of a text and what follows it. -/
def Token.first (c : Char) (cs : List Char) : Except Fault (Token × List Char) := do
  let run := (← State.ofChar c).run cs
  let kind ← run.last.finish run.rest.head?
  return (⟨kind, String.ofList (c :: run.taken)⟩, run.rest)

/-- There is a first token exactly if a lexeme begins and its run ends well. -/
theorem Token.first_eq_ok_iff {c : Char} {cs rest : List Char} {t : Token} :
    Token.first c cs = .ok (t, rest) ↔
      ∃ state kind, State.ofChar c = .ok state ∧
        (state.run cs).last.finish (state.run cs).rest.head? = .ok kind ∧
        t = ⟨kind, String.ofList (c :: (state.run cs).taken)⟩ ∧ rest = (state.run cs).rest := by
  unfold Token.first
  cases hs : State.ofChar c with
  | error f => simp [bind, Except.bind]
  | ok state =>
    cases hk : (state.run cs).last.finish (state.run cs).rest.head? with
    | error f => simp [bind, Except.bind, hk]
    | ok kind => simp [bind, Except.bind, pure, Except.pure, hk, eq_comm]

/-- A token takes at least the character that it begins with. -/
theorem Token.first_rest_length {c : Char} {cs rest : List Char} {t : Token}
    (h : Token.first c cs = .ok (t, rest)) : rest.length ≤ cs.length := by
  obtain ⟨state, kind, -, -, -, rfl⟩ := Token.first_eq_ok_iff.1 h
  have := congrArg List.length (state.run_taken_append_rest cs)
  rw [List.length_append] at this
  omega

/-- The tokens of a text up to its end or its first fault. -/
structure Reading where
  tokens : List Token
  fault : Option Fault
  deriving DecidableEq

namespace Reading

/-- A token in front of what has been read. -/
def cons (t : Token) (r : Reading) : Reading := { r with tokens := t :: r.tokens }

def ofChars : List Char → Reading
  | [] => ⟨[], none⟩
  | c :: cs =>
    match _h : Token.first c cs with
    | .error fault => ⟨[], some fault⟩
    | .ok (t, rest) => (ofChars rest).cons t
termination_by cs => cs.length
decreasing_by
  have := Token.first_rest_length _h
  simp only [List.length_cons]
  omega

end Reading

/-- A fault and the place of the lexeme that has it. -/
structure LexemeError where
  fault : Fault
  position : Text.Position
  deriving DecidableEq

def LexemeError.message (e : LexemeError) : String :=
  e.fault.message ++ " at line " ++ toString e.position.line ++ ", column " ++
    toString e.position.column

/-- The tokens of a text, or its first fault, which lies right after the tokens read before it. -/
def Token.ofSource (source : String) : Except LexemeError (List Token) :=
  let reading := Reading.ofChars source.toList
  match reading.fault with
  | none => .ok reading.tokens
  | some fault => .error ⟨fault, Text.Position.start.after (sourceText reading.tokens).toList⟩

end PackageRecipe
