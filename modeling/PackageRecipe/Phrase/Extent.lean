import PackageRecipe.Phrase.Basic

/-!
How far a statement reaches. A statement ends before the first line break outside brackets, a class
header after the first colon outside brackets, and a comment block after its last comment.
-/
namespace PackageRecipe

/-- Tokens cut in two: those taken and those left. -/
structure Cut where
  taken : List Token
  rest : List Token
  deriving DecidableEq

namespace Cut

def cons (t : Token) (cut : Cut) : Cut := { cut with taken := t :: cut.taken }

/-- Tokens in front of those taken. -/
def prepend (lead : List Token) (cut : Cut) : Cut := { cut with taken := lead ++ cut.taken }

/-- The tokens that were cut. -/
def tokens (cut : Cut) : List Token := cut.taken ++ cut.rest

/-- Takes the tokens up to the first that fails `p`. -/
def span (p : Token → Bool) (tokens : List Token) : Cut := ⟨tokens.takeWhile p, tokens.dropWhile p⟩

theorem tokens_span (p : Token → Bool) (tokens : List Token) : (span p tokens).tokens = tokens :=
  List.takeWhile_append_dropWhile

/-- Takes a statement up to the first line break outside brackets, if `depth` brackets are open. -/
def statement (depth : Nat) : List Token → Cut
  | [] => ⟨[], []⟩
  | t :: ts =>
    if t.isBreak && depth = 0 then ⟨[], t :: ts⟩
    else (statement (t.depthAfter depth) ts).cons t

theorem tokens_statement (depth : Nat) (tokens : List Token) :
    (statement depth tokens).tokens = tokens := by
  induction tokens generalizing depth with
  | nil => rfl
  | cons t ts ih =>
    rw [statement]
    split
    · rfl
    · exact congrArg (List.cons t) (ih _)

/-- Takes the longest stretch of comments and blanks that ends with a comment. The blanks after it
stay with the next statement, which keeps its indentation. -/
def remarks : List Token → Cut
  | [] => ⟨[], []⟩
  | t :: ts =>
    if t.isComment then (remarks ts).cons t
    else if t.isBlank then
      match remarks ts with
      | ⟨[], _⟩ => ⟨[], t :: ts⟩
      | cut => cut.cons t
    else ⟨[], t :: ts⟩

theorem tokens_remarks (tokens : List Token) : (remarks tokens).tokens = tokens := by
  induction tokens with
  | nil => rfl
  | cons t ts ih =>
    rw [remarks]
    split
    · exact congrArg (List.cons t) ih
    · split
      · split
        · rfl
        · exact congrArg (List.cons t) ih
      · rfl

end Cut

/-- A cut together with what it was made for, or why that failed. The tokens taken before a failure
are taken all the same. -/
structure Attempt (α : Type) where
  cut : Cut
  outcome : Except PhraseFault α

namespace Attempt

variable {α : Type}

def cons (t : Token) (a : Attempt α) : Attempt α := { a with cut := a.cut.cons t }

/-- Tokens in front of those taken, whatever came of it. -/
def prepend (lead : List Token) (a : Attempt α) : Attempt α := { a with cut := a.cut.prepend lead }

/-- Takes a class header through its colon, if `depth` brackets are open. -/
def header (depth : Nat) : List Token → Attempt Unit
  | [] => ⟨⟨[], []⟩, .error (if depth = 0 then .missingColon else .unclosedBrackets)⟩
  | t :: ts =>
    if depth = 0 && t.isBreak then ⟨⟨[], t :: ts⟩, .error .missingColon⟩
    else if depth = 0 && t.isDelimiter ":" then ⟨⟨[t], ts⟩, .ok ()⟩
    else if depth = 0 && t.isCloser then ⟨⟨[], t :: ts⟩, .error .unmatchedBracket⟩
    else (header (t.depthAfter depth) ts).cons t

theorem tokens_header (depth : Nat) (tokens : List Token) :
    (header depth tokens).cut.tokens = tokens := by
  induction tokens generalizing depth with
  | nil => rfl
  | cons t ts ih =>
    rw [header]
    split
    · rfl
    · split
      · rfl
      · split
        · rfl
        · exact congrArg (List.cons t) (ih _)

/-- A header that is found has at least its colon. -/
theorem header_taken_ne_nil {depth : Nat} {tokens : List Token} {u : Unit}
    (h : (header depth tokens).outcome = .ok u) :
    (header depth tokens).cut.taken ≠ [] := by
  cases tokens with
  | nil => simp [header] at h
  | cons t ts =>
    rw [header] at h ⊢
    split at h
    · simp at h
    · rw [if_neg ‹_›]
      split at h
      · rw [if_pos ‹_›]
        exact List.cons_ne_nil _ _
      · rw [if_neg ‹_›]
        split at h
        · simp at h
        · rw [if_neg ‹_›]
          exact List.cons_ne_nil _ _

end Attempt
end PackageRecipe
