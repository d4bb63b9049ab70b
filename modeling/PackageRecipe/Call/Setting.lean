import PackageRecipe.Call.Take
import PackageRecipe.Declaration.Basic

/-!
What a call can set, and under which keys. Either call has slots of its own, so `Slot` and `Setting`
are families over the call: a type list cannot turn up in a version.
-/
namespace PackageRecipe.Call

/-- Keys that fix the sources of a version. -/
def pinKeys : List String :=
  ["sha256", "md5", "sha1", "sha224", "sha384", "sha512", "commit", "tag", "branch"]

/-- Keys that say where the sources of a version are. -/
def sourceKeys : List String := ["url", "svn", "hg", "cvs", "git"]

/-- The most types that one list may name. -/
def typeLimit : Nat := 3

inductive Slot : Call → Type where
  | pin : Slot .version
  | source : Slot .version
  | preferred : Slot .version
  | types : Slot .dependsOn
  | condition : Slot .dependsOn
  deriving DecidableEq

/-- The slot that a key stands for, if the call knows it. -/
def Slot.ofKey? : (call : Call) → String → Option (Slot call)
  | .version, key =>
    if key ∈ pinKeys then some .pin
    else if key ∈ sourceKeys then some .source
    else if key = "preferred" then some .preferred
    else none
  | .dependsOn, key =>
    if key = "type" then some .types
    else if key = "when" then some .condition
    else none

/-- A slot with what it is set to. -/
inductive Setting : Call → Type where
  | pin (argument : Argument) : Setting .version
  | source (argument : Argument) : Setting .version
  | preferred (value : Token) : Setting .version
  | types (values : List Token) : Setting .dependsOn
  | condition (value : Token) : Setting .dependsOn
  deriving DecidableEq

/-- The types after the first in a list, of which at most `room` more may follow. -/
def moreTypes (room : Nat) (ts : List Token) : Except CallFault (List Token × List Token) :=
  match afterArgument ts with
  | .error fault => .error fault
  | .ok (.closed rest) => .ok ([], rest)
  | .ok (.another rest) =>
    match room with
    | 0 => .error .tooManyTypes
    | room + 1 => do
      let (value, rest) ← takeString rest
      let (values, rest) ← moreTypes room rest
      .ok (value :: values, rest)

/-- One type, or a list of types in parentheses. -/
def takeTypes (ts : List Token) : Except CallFault (List Token × List Token) :=
  if ts.head?.any (Token.isDelimiter "(") then do
    let (value, rest) ← takeString ts.tail
    let (values, rest) ← moreTypes (typeLimit - 1) rest
    .ok (value :: values, rest)
  else do
    let (value, rest) ← takeString ts
    .ok ([value], rest)

/-- Reads the value of a slot, after the key and the assignment. -/
def Slot.read (key : Token) (ts : List Token) {call : Call} :
    Slot call → Except CallFault (Setting call × List Token)
  | pin => do
    let (value, rest) ← takeString ts
    .ok (.pin ⟨key, value⟩, rest)
  | source => do
    let (value, rest) ← takeString ts
    .ok (.source ⟨key, value⟩, rest)
  | preferred => do
    let (value, rest) ← take .boolean isBoolean ts
    .ok (.preferred value, rest)
  | types => do
    let (values, rest) ← takeTypes ts
    .ok (.types values, rest)
  | condition => do
    let (value, rest) ← takeString ts
    .ok (.condition value, rest)

theorem leaves_moreTypes {n : Nat} (room : Nat) {ts : List Token} (h : ts.length ≤ n) :
    Leaves n (moreTypes room ts) := by
  induction room generalizing ts with
  | zero =>
    unfold moreTypes
    split
    · exact Leaves.error
    · exact Leaves.ok (Nat.le_trans (Nat.le_of_lt (length_afterArgument ‹_›)) h)
    · exact Leaves.error
  | succ room ih =>
    unfold moreTypes
    split
    · exact Leaves.error
    · exact Leaves.ok (Nat.le_trans (Nat.le_of_lt (length_afterArgument ‹_›)) h)
    · have hr := Nat.le_trans (Nat.le_of_lt (length_afterArgument ‹_›)) h
      exact (leaves_take hr).bind fun _ _ hv => (ih hv).bind fun _ _ hs => Leaves.ok hs

theorem leaves_takeTypes {n : Nat} {ts : List Token} (h : ts.length ≤ n) :
    Leaves n (takeTypes ts) := by
  rw [takeTypes]
  split
  · have ht : ts.tail.length ≤ n := by
      rw [List.length_tail]
      omega
    exact (leaves_take ht).bind fun _ _ hv =>
      (leaves_moreTypes _ hv).bind fun _ _ hs => Leaves.ok hs
  · exact (leaves_take h).bind fun _ _ hv => Leaves.ok hv

theorem Slot.leaves_read {n : Nat} {call : Call} (slot : Slot call) (key : Token) {ts : List Token}
    (h : ts.length ≤ n) : Leaves n (slot.read key ts) := by
  cases slot with
  | types => exact (leaves_takeTypes h).bind fun _ _ hv => Leaves.ok hv
  | pin | source | preferred | condition => exact (leaves_take h).bind fun _ _ hv => Leaves.ok hv

end PackageRecipe.Call
