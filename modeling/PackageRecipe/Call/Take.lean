import PackageRecipe.Call.Basic
import PackageRecipe.Token.Basic

/-!
The steps in which a call is read. Each takes tokens off the front of a list without filler and says
what it expected if they are not there. `Leaves n r` says that at most `n` tokens are left if the
step `r` succeeds; it is what makes reading the arguments come to an end.
-/
namespace PackageRecipe.Call

/-- Takes the next token if it is what is expected. -/
def take (what : Expectation) (accepts : Token → Bool) :
    List Token → Except CallFault (Token × List Token)
  | [] => .error (.expected what none)
  | t :: ts => if accepts t then .ok (t, ts) else .error (.expected what (some t.text))

def isString (t : Token) : Bool := t.kind = .string

def isKey (t : Token) : Bool := t.kind = .identifier

def isBoolean (t : Token) : Bool := t.isKeyword "True" || t.isKeyword "False"

theorem isBoolean_iff {t : Token} :
    isBoolean t = true ↔ t = ⟨.keyword, "True"⟩ ∨ t = ⟨.keyword, "False"⟩ := by
  obtain ⟨kind, text⟩ := t
  simp [isBoolean, Token.isKeyword, Token.spells]

abbrev takeString := take .string isString

abbrev takeAssignment := take .assignment (Token.isDelimiter "=")

/-- What follows an argument: another one, or the end of the list, which a comma may precede. -/
inductive Continuation where
  | another (rest : List Token)
  | closed (rest : List Token)
  deriving DecidableEq

/-- What follows a comma. -/
def afterComma : List Token → Continuation
  | [] => .another []
  | t :: ts => if t.isDelimiter ")" then .closed ts else .another (t :: ts)

def afterArgument : List Token → Except CallFault Continuation
  | [] => .error (.expected .commaOrClose none)
  | t :: ts =>
    if t.isDelimiter "," then .ok (afterComma ts)
    else if t.isDelimiter ")" then .ok (.closed ts)
    else .error (.expected .commaOrClose (some t.text))

/-- Drops a value that nobody asked for: all up to a comma or a closing bracket outside the brackets
that the value opens, or up to the end. -/
def dropValue (depth : Nat) : List Token → List Token
  | [] => []
  | t :: ts =>
    if depth = 0 && (t.isCloser || t.isDelimiter ",") then t :: ts
    else dropValue (t.depthAfter depth) ts

/-- At most `n` tokens are left if the step succeeds. -/
def Leaves {α : Type} (n : Nat) (r : Except CallFault (α × List Token)) : Prop :=
  ∀ a rest, r = .ok (a, rest) → rest.length ≤ n

theorem Leaves.ok {α : Type} {n : Nat} {a : α} {rest : List Token} (h : rest.length ≤ n) :
    Leaves n (.ok (a, rest)) := by
  rintro _ _ ⟨⟩
  exact h

theorem Leaves.error {α : Type} {n : Nat} {fault : CallFault} :
    Leaves n (.error fault : Except CallFault (α × List Token)) :=
  nofun

/-- Steps one after the other leave no more than their last one does. -/
theorem Leaves.bind {α β : Type} {n : Nat} {r : Except CallFault (α × List Token)}
    {next : α × List Token → Except CallFault (β × List Token)} (first : Leaves n r)
    (second : ∀ a rest, rest.length ≤ n → Leaves n (next (a, rest))) : Leaves n (r >>= next) := by
  cases r with
  | error fault => exact Leaves.error
  | ok a => exact second a.1 a.2 (first a.1 a.2 rfl)

theorem leaves_take {n : Nat} {what : Expectation} {accepts : Token → Bool} {ts : List Token}
    (h : ts.length ≤ n) : Leaves n (take what accepts ts) := by
  cases ts with
  | nil => exact Leaves.error
  | cons t ts =>
    rw [take]
    split
    · exact Leaves.ok (Nat.le_of_succ_le h)
    · exact Leaves.error

theorem length_dropValue (depth : Nat) (ts : List Token) :
    (dropValue depth ts).length ≤ ts.length := by
  induction ts generalizing depth with
  | nil => exact Nat.le_refl _
  | cons t ts ih =>
    rw [dropValue]
    split
    · exact Nat.le_refl _
    · exact Nat.le_succ_of_le (ih _)

/-- The tokens after an argument and its comma, or after the whole call. -/
def Continuation.rest : Continuation → List Token
  | another rest | closed rest => rest

theorem length_afterComma (ts : List Token) : (afterComma ts).rest.length ≤ ts.length := by
  cases ts with
  | nil => exact Nat.le_refl _
  | cons t ts =>
    rw [afterComma]
    split
    · exact Nat.le_succ _
    · exact Nat.le_refl _

/-- The comma or parenthesis after an argument is gone. -/
theorem length_afterArgument {ts : List Token} {c : Continuation} (h : afterArgument ts = .ok c) :
    c.rest.length < ts.length := by
  cases ts with
  | nil => simp [afterArgument] at h
  | cons t ts =>
    rw [afterArgument] at h
    split at h
    · rw [← Except.ok.inj h]
      exact Nat.lt_succ_of_le (length_afterComma ts)
    · split at h
      · rw [← Except.ok.inj h]
        exact Nat.lt_succ_self _
      · simp at h

end PackageRecipe.Call
