import PackageRecipe.Call.Setting

/-!
The keyword arguments of a call, in the order in which they are written. A key that the call does
not know is no error: it is kept, and its value is passed over. The entries read before a fault are
kept as well.
-/
namespace PackageRecipe.Call

inductive Entry (call : Call) where
  | setting (s : Setting call)
  | unknown (key : Token)
  deriving DecidableEq

namespace Entry

variable {call : Call}

def setting? : Entry call → Option (Setting call)
  | setting s => some s
  | unknown _ => none

def unknown? : Entry call → Option Token
  | setting _ => none
  | unknown key => some key

end Entry

/-- Drops what is assigned to an unknown key; the key may also stand alone. -/
def dropAssigned (ts : List Token) : List Token :=
  if ts.head?.any (Token.isDelimiter "=") then dropValue 0 ts.tail else ts

/-- Reads one argument. -/
def Entry.read (call : Call) (ts : List Token) : Except CallFault (Entry call × List Token) := do
  let (key, rest) ← take .key isKey ts
  match Slot.ofKey? call key.text with
  | none => .ok (.unknown key, dropAssigned rest)
  | some slot =>
    let (_, rest) ← takeAssignment rest
    let (s, rest) ← slot.read key rest
    .ok (.setting s, rest)

theorem length_dropAssigned (ts : List Token) : (dropAssigned ts).length ≤ ts.length := by
  rw [dropAssigned]
  split
  · have := length_dropValue 0 ts.tail
    rw [List.length_tail] at this
    omega
  · exact Nat.le_refl _

theorem Entry.leaves_read {n : Nat} {call : Call} {ts : List Token} (h : ts.length ≤ n) :
    Leaves n (Entry.read call ts) := by
  refine (leaves_take h).bind fun key rest hr => ?_
  dsimp only
  split
  · exact Leaves.ok (Nat.le_trans (length_dropAssigned rest) hr)
  · exact (leaves_take hr).bind fun _ _ ha =>
      (Slot.leaves_read _ key ha).bind fun _ _ hs => Leaves.ok hs

/-- The arguments of a call up to its end or its first fault. -/
structure Arguments (call : Call) where
  entries : List (Entry call)
  /-- What stands after the closing parenthesis. -/
  outcome : Except CallFault (List Token)

namespace Arguments

variable {call : Call}

def cons (e : Entry call) (a : Arguments call) : Arguments call :=
  { a with entries := e :: a.entries }

/-- The keys that the call does not know. -/
def unknown (a : Arguments call) : List Token := a.entries.filterMap Entry.unknown?

def settings (a : Arguments call) : List (Setting call) := a.entries.filterMap Entry.setting?

/-- Reads the arguments that follow the first, from the comma or parenthesis after it on. -/
def read (call : Call) (ts : List Token) : Arguments call :=
  match _h : afterArgument ts with
  | .error fault => ⟨[], .error fault⟩
  | .ok (.closed rest) => ⟨[], .ok rest⟩
  | .ok (.another rest) =>
    match _hr : Entry.read call rest with
    | .error fault => ⟨[], .error fault⟩
    | .ok (e, rest) => (read call rest).cons e
termination_by ts.length
decreasing_by
  have := Entry.leaves_read (Nat.le_refl _) _ _ _hr
  exact Nat.lt_of_le_of_lt this (length_afterArgument _h)

end Arguments

/-- The string that a call begins with and what follows it. The first token is the name that is
called, whatever it is; filler between the tokens does not matter. -/
def opening (tokens : List Token) : Except CallFault (Token × List Token) := do
  let significant := tokens.filter fun t => !t.isFiller
  let (_, rest) ← take .openParenthesis (Token.isDelimiter "(") significant.tail
  takeString rest

end PackageRecipe.Call
