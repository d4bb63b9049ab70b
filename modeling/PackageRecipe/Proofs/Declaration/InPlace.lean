import PackageRecipe.Proofs.Call.Step
import PackageRecipe.Proofs.Declaration.Listing
import PackageRecipe.Proofs.Declaration.Sound

/-!
A reader of calls that leaves filler where it is. It passes over filler wherever it looks for a
token, steps over the name that is called unseen, and drops a value that nobody asked for token by
token, filler and all. Each of its steps finds what the step on tokens without filler finds and
leaves the same, filler apart, so either reader makes the same of every call.
-/
namespace PackageRecipe

open Call

/-- The tokens from the first one on that is no filler. -/
def skipFiller (ts : List Token) : List Token := ts.dropWhile Token.isFiller

namespace Call

/-- The same continuation with other tokens behind it. -/
def Continuation.map (f : List Token → List Token) : Continuation → Continuation
  | another rest => another (f rest)
  | closed rest => closed (f rest)

namespace InPlace

def take (what : Expectation) (accepts : Token → Bool) (ts : List Token) :
    Except CallFault (Token × List Token) :=
  Call.take what accepts (skipFiller ts)

abbrev takeString := take .string isString

abbrev takeAssignment := take .assignment (Token.isDelimiter "=")

def afterArgument (ts : List Token) : Except CallFault Continuation :=
  match skipFiller ts with
  | [] => .error (.expected .commaOrClose none)
  | t :: ts =>
    if t.isDelimiter "," then .ok (afterComma (skipFiller ts))
    else if t.isDelimiter ")" then .ok (.closed ts)
    else .error (.expected .commaOrClose (some t.text))

def moreTypes (room : Nat) (ts : List Token) : Except CallFault (List Token × List Token) :=
  match afterArgument ts with
  | .error fault => .error fault
  | .ok (.closed rest) => .ok ([], rest)
  | .ok (.another rest) =>
    match room with
    | 0 => .error .tooManyTypes
    | room + 1 => do
      let (value, rest) ← takeString rest
      let (values, rest) ← moreTypes room rest
      .ok (value :: values, rest)

def takeTypes (ts : List Token) : Except CallFault (List Token × List Token) :=
  if (skipFiller ts).head?.any (Token.isDelimiter "(") then do
    let (value, rest) ← takeString (skipFiller ts).tail
    let (values, rest) ← moreTypes (typeLimit - 1) rest
    .ok (value :: values, rest)
  else do
    let (value, rest) ← takeString ts
    .ok ([value], rest)

def readSlot (key : Token) (ts : List Token) {call : Call} :
    Slot call → Except CallFault (Setting call × List Token)
  | .pin => do
    let (value, rest) ← takeString ts
    .ok (.pin ⟨key, value⟩, rest)
  | .source => do
    let (value, rest) ← takeString ts
    .ok (.source ⟨key, value⟩, rest)
  | .preferred => do
    let (value, rest) ← take .boolean isBoolean ts
    .ok (.preferred value, rest)
  | .types => do
    let (values, rest) ← takeTypes ts
    .ok (.types values, rest)
  | .condition => do
    let (value, rest) ← takeString ts
    .ok (.condition value, rest)

def dropAssigned (ts : List Token) : List Token :=
  if (skipFiller ts).head?.any (Token.isDelimiter "=") then dropValue 0 (skipFiller ts).tail
  else skipFiller ts

def readEntry (call : Call) (ts : List Token) : Except CallFault (Entry call × List Token) := do
  let (key, rest) ← take .key isKey ts
  match Slot.ofKey? call key.text with
  | none => .ok (.unknown key, dropAssigned rest)
  | some slot =>
    let (_, rest) ← takeAssignment rest
    let (s, rest) ← readSlot key rest slot
    .ok (.setting s, rest)

def opening (ts : List Token) : Except CallFault (Token × List Token) := do
  let (_, rest) ← take .openParenthesis (Token.isDelimiter "(") (skipFiller ts).tail
  takeString rest

end InPlace

section Filler

variable {t : Token} {ts us : List Token}

theorem significant_cons_of_isFiller (h : t.isFiller = true) (ts : List Token) :
    significant (t :: ts) = significant ts :=
  List.filter_cons_of_neg (by simp [h])

theorem significant_cons (h : t.isFiller = false) (ts : List Token) :
    significant (t :: ts) = t :: significant ts :=
  List.filter_cons_of_pos (by simp [h])

/-- Either there are no tokens but filler, or the first other one is the first without filler. -/
theorem skipFiller_cases (ts : List Token) :
    (skipFiller ts = [] ∧ significant ts = []) ∨
      ∃ t us, skipFiller ts = t :: us ∧ significant ts = t :: significant us ∧
        significant (t :: us) = significant ts := by
  induction ts with
  | nil => exact .inl ⟨rfl, rfl⟩
  | cons t ts ih =>
    cases ht : t.isFiller with
    | false =>
      have hs : skipFiller (t :: ts) = t :: ts := List.dropWhile_cons_of_neg (by simp [ht])
      exact .inr ⟨t, ts, hs, significant_cons ht ts, rfl⟩
    | true =>
      have hs : skipFiller (t :: ts) = skipFiller ts := List.dropWhile_cons_of_pos ht
      rw [hs, significant_cons_of_isFiller ht]
      exact ih

theorem significant_skipFiller (ts : List Token) :
    significant (skipFiller ts) = significant ts := by
  obtain ⟨hs, hn⟩ | ⟨t, us, hs, -, hn⟩ := skipFiller_cases ts
  · rw [hs, hn]
    rfl
  · rw [hs, hn]

theorem head?_significant (ts : List Token) : (significant ts).head? = (skipFiller ts).head? := by
  obtain ⟨hs, hn⟩ | ⟨t, us, hs, hn, -⟩ := skipFiller_cases ts
  · rw [hs, hn]
  · rw [hs, hn]
    rfl

theorem tail_significant (ts : List Token) :
    (significant ts).tail = significant (skipFiller ts).tail := by
  obtain ⟨hs, hn⟩ | ⟨t, us, hs, hn, -⟩ := skipFiller_cases ts
  · rw [hs, hn]
    rfl
  · rw [hs, hn]
    rfl

end Filler

/-- A step that passes over filler finds what `step` finds on the tokens without filler, and leaves
the same, filler apart. -/
def Skips {α : Type} (raw step : List Token → Except CallFault (α × List Token)) : Prop :=
  ∀ ts, step (significant ts) = (raw ts).map fun found => (found.1, significant found.2)

section Skips

variable {α β : Type}

theorem Skips.of_ok (a : α) : Skips (fun ts => .ok (a, ts)) fun ts => .ok (a, ts) := fun _ => rfl

/-- Steps one after the other pass over filler if each of them does. -/
theorem Skips.bind {raw step : List Token → Except CallFault (α × List Token)}
    {rawNext next : α × List Token → Except CallFault (β × List Token)} (first : Skips raw step)
    (second : ∀ a, Skips (fun ts => rawNext (a, ts)) fun ts => next (a, ts)) :
    Skips (fun ts => raw ts >>= rawNext) fun ts => step ts >>= next := by
  intro ts
  dsimp only
  rw [first ts]
  cases raw ts with
  | error fault => rfl
  | ok found => exact second found.1 found.2

theorem skips_take (what : Expectation) (accepts : Token → Bool) :
    Skips (InPlace.take what accepts) (take what accepts) := by
  intro ts
  rw [InPlace.take]
  obtain ⟨hs, hn⟩ | ⟨t, us, hs, hn, -⟩ := skipFiller_cases ts
  · rw [hs, hn]
    rfl
  · rw [hs, hn, take, take]
    split
    · rfl
    · rfl

theorem afterComma_significant (ts : List Token) :
    afterComma (significant ts) = (afterComma (skipFiller ts)).map significant := by
  obtain ⟨hs, hn⟩ | ⟨t, us, hs, hn, ht⟩ := skipFiller_cases ts
  · rw [hs, hn]
    rfl
  · rw [hs, hn, afterComma, afterComma]
    split
    · rfl
    · rw [Continuation.map, ht, hn]

theorem afterArgument_significant (ts : List Token) :
    afterArgument (significant ts) =
      (InPlace.afterArgument ts).map (Continuation.map significant) := by
  rw [InPlace.afterArgument]
  obtain ⟨hs, hn⟩ | ⟨t, us, hs, hn, -⟩ := skipFiller_cases ts
  · rw [hs, hn]
    rfl
  · rw [hs, hn]
    dsimp only
    rw [afterArgument]
    split
    · exact congrArg Except.ok (afterComma_significant us)
    · split
      · rfl
      · rfl

theorem skips_moreTypes (room : Nat) : Skips (InPlace.moreTypes room) (moreTypes room) := by
  induction room with
  | zero =>
    intro ts
    unfold moreTypes InPlace.moreTypes
    rw [afterArgument_significant]
    cases InPlace.afterArgument ts with
    | error fault => rfl
    | ok continuation => cases continuation <;> rfl
  | succ room ih =>
    have next : Skips
        (fun ts => (do
          let (value, rest) ← InPlace.takeString ts
          let (values, rest) ← InPlace.moreTypes room rest
          .ok (value :: values, rest)))
        fun ts => (do
          let (value, rest) ← takeString ts
          let (values, rest) ← moreTypes room rest
          .ok (value :: values, rest)) :=
      (skips_take .string isString).bind fun value => ih.bind fun values => .of_ok (value :: values)
    intro ts
    unfold moreTypes InPlace.moreTypes
    rw [afterArgument_significant]
    cases InPlace.afterArgument ts with
    | error fault => rfl
    | ok continuation =>
      cases continuation with
      | closed rest => rfl
      | another rest => exact next rest

theorem skips_takeTypes : Skips InPlace.takeTypes takeTypes := by
  have single : Skips
      (fun ts => (do
        let (value, rest) ← InPlace.takeString ts
        .ok ([value], rest)))
      fun ts => (do
        let (value, rest) ← takeString ts
        .ok ([value], rest)) :=
    (skips_take .string isString).bind fun value => .of_ok [value]
  have list : Skips
      (fun ts => (do
        let (value, rest) ← InPlace.takeString ts
        let (values, rest) ← InPlace.moreTypes (typeLimit - 1) rest
        .ok (value :: values, rest)))
      fun ts => (do
        let (value, rest) ← takeString ts
        let (values, rest) ← moreTypes (typeLimit - 1) rest
        .ok (value :: values, rest)) :=
    (skips_take .string isString).bind fun value =>
      (skips_moreTypes _).bind fun values => .of_ok (value :: values)
  intro ts
  rw [takeTypes, InPlace.takeTypes, head?_significant, tail_significant]
  split
  · exact list _
  · exact single ts

theorem Slot.skips_read {call : Call} (slot : Slot call) (key : Token) :
    Skips (fun ts => InPlace.readSlot key ts slot) fun ts => slot.read key ts := by
  have string := skips_take .string isString
  cases slot with
  | pin => exact string.bind fun value => .of_ok (Setting.pin ⟨key, value⟩)
  | source => exact string.bind fun value => .of_ok (Setting.source ⟨key, value⟩)
  | preferred =>
    exact (skips_take .boolean isBoolean).bind fun value => .of_ok (Setting.preferred value)
  | types => exact skips_takeTypes.bind fun values => .of_ok (Setting.types values)
  | condition => exact string.bind fun value => .of_ok (Setting.condition value)

/-- Filler opens and closes nothing, so a value is dropped up to the same token. -/
theorem dropValue_significant (depth : Nat) (ts : List Token) :
    dropValue depth (significant ts) = significant (dropValue depth ts) := by
  induction ts generalizing depth with
  | nil => rfl
  | cons t ts ih =>
    cases ht : t.isFiller with
    | true =>
      have hd := Token.not_isDelimiter_of_isFiller ht
      rw [significant_cons_of_isFiller ht, ih, dropValue, if_neg (by simp [Token.isCloser, hd]),
        Token.depthAfter_of_isFiller ht]
    | false =>
      rw [significant_cons ht, dropValue, dropValue]
      split
      · rw [significant_cons ht]
      · exact ih _

theorem dropAssigned_significant (ts : List Token) :
    dropAssigned (significant ts) = significant (InPlace.dropAssigned ts) := by
  rw [dropAssigned, InPlace.dropAssigned, head?_significant, tail_significant]
  split
  · exact dropValue_significant 0 _
  · exact (significant_skipFiller ts).symm

theorem Entry.skips_read (call : Call) : Skips (InPlace.readEntry call) (Entry.read call) := by
  refine (skips_take .key isKey).bind fun key => ?_
  dsimp only
  cases Slot.ofKey? call key.text with
  | none =>
    intro ts
    dsimp only
    rw [dropAssigned_significant]
    rfl
  | some slot =>
    exact (skips_take .assignment (Token.isDelimiter "=")).bind fun _ =>
      (slot.skips_read key).bind fun s => .of_ok (Entry.setting s)

theorem opening_eq_inPlace (ts : List Token) :
    opening ts = (InPlace.opening ts).map fun found => (found.1, significant found.2) := by
  have step : Skips
      (fun ts => (do
        let (_, rest) ← InPlace.take .openParenthesis (Token.isDelimiter "(") ts
        InPlace.takeString rest))
      fun ts => (do
        let (_, rest) ← take .openParenthesis (Token.isDelimiter "(") ts
        takeString rest) :=
    (skips_take .openParenthesis (Token.isDelimiter "(")).bind fun _ => skips_take .string isString
  have h := step (skipFiller ts).tail
  rw [← tail_significant] at h
  exact h

end Skips

/-- Reads the arguments that follow the first, as `Arguments.read` does without filler. Those that
are left hold fewer tokens besides filler. -/
def InPlace.readArguments (call : Call) (ts : List Token) : Arguments call :=
  match _h : InPlace.afterArgument ts with
  | .error fault => ⟨[], .error fault⟩
  | .ok (.closed rest) => ⟨[], .ok rest⟩
  | .ok (.another others) =>
    match _hr : InPlace.readEntry call others with
    | .error fault => ⟨[], .error fault⟩
    | .ok (e, rest) => (readArguments call rest).cons e
termination_by (significant ts).length
decreasing_by
  have ha := afterArgument_significant ts
  have he := Entry.skips_read call others
  rw [_h] at ha
  rw [_hr] at he
  exact Nat.lt_of_le_of_lt (Entry.leaves_read (Nat.le_refl _) _ _ he) (length_afterArgument ha)

namespace InPlace

variable {call : Call} {ts us rest : List Token}

theorem readArguments_of_afterArgument_error {fault : CallFault}
    (h : afterArgument ts = .error fault) : readArguments call ts = ⟨[], .error fault⟩ := by
  rw [readArguments]
  split <;> simp_all

theorem readArguments_of_closed (h : afterArgument ts = .ok (.closed rest)) :
    readArguments call ts = ⟨[], .ok rest⟩ := by
  rw [readArguments]
  split <;> simp_all

theorem readArguments_of_error {fault : CallFault} (ha : afterArgument ts = .ok (.another us))
    (he : readEntry call us = .error fault) : readArguments call ts = ⟨[], .error fault⟩ := by
  rw [readArguments]
  split
  · simp_all
  · simp_all
  · rename_i h
    obtain rfl := Continuation.another.inj (Except.ok.inj (ha.symm.trans h))
    split <;> simp_all

theorem readArguments_of_entry {e : Entry call} (ha : afterArgument ts = .ok (.another us))
    (he : readEntry call us = .ok (e, rest)) :
    readArguments call ts = (readArguments call rest).cons e := by
  rw [readArguments]
  split
  · simp_all
  · simp_all
  · rename_i h
    obtain rfl := Continuation.another.inj (Except.ok.inj (ha.symm.trans h))
    split
    · simp_all
    · rename_i h
      cases he.symm.trans h
      rfl

end InPlace

/-- Arguments read in place are those read without filler. -/
theorem Arguments.read_significant (call : Call) (ts : List Token) :
    Arguments.read call (significant ts) =
      ⟨(InPlace.readArguments call ts).entries,
        (InPlace.readArguments call ts).outcome.map significant⟩ := by
  induction ts using InPlace.readArguments.induct call with
  | case1 ts fault h =>
    have ha : afterArgument (significant ts) = .error fault := by
      rw [afterArgument_significant, h]
      rfl
    rw [read_of_afterArgument_error ha, InPlace.readArguments_of_afterArgument_error h]
    rfl
  | case2 ts rest h =>
    have ha : afterArgument (significant ts) = .ok (.closed (significant rest)) := by
      rw [afterArgument_significant, h]
      rfl
    rw [read_of_closed ha, InPlace.readArguments_of_closed h]
    rfl
  | case3 ts us h fault he =>
    have ha : afterArgument (significant ts) = .ok (.another (significant us)) := by
      rw [afterArgument_significant, h]
      rfl
    have hs : Entry.read call (significant us) = .error fault := by
      rw [Entry.skips_read, he]
      rfl
    rw [read_of_error ha hs, InPlace.readArguments_of_error h he]
    rfl
  | case4 ts us h e rest he ih =>
    have ha : afterArgument (significant ts) = .ok (.another (significant us)) := by
      rw [afterArgument_significant, h]
      rfl
    have hs : Entry.read call (significant us) = .ok (e, significant rest) := by
      rw [Entry.skips_read, he]
      rfl
    rw [read_of_entry ha hs, ih, InPlace.readArguments_of_entry h he]
    rfl

end Call

/-- Reads the tokens of a call statement as they stand. -/
def DeclarationReading.inPlace (call : Call) (tokens : List Token) : DeclarationReading :=
  match InPlace.opening tokens with
  | .error fault => ⟨.error ⟨call, fault⟩, []⟩
  | .ok (first, rest) =>
    let arguments := InPlace.readArguments call rest
    match arguments.outcome with
    | .error fault => ⟨.error ⟨call, fault⟩, arguments.unknown⟩
    | .ok _ => ⟨.ok (.ofSettings first call arguments.settings), arguments.unknown⟩

/-- To read a call with its filler in place is to read it without. -/
theorem DeclarationReading.inPlace_eq_ofTokens (call : Call) (tokens : List Token) :
    inPlace call tokens = ofTokens call tokens := by
  have ho := opening_eq_inPlace tokens
  rw [inPlace]
  cases hi : InPlace.opening tokens with
  | error fault =>
    rw [hi] at ho
    rw [ofTokens_of_opening_error ho]
  | ok found =>
    obtain ⟨first, rest⟩ := found
    rw [hi] at ho
    rw [ofTokens_of_opening ho, Arguments.read_significant]
    dsimp only
    cases (InPlace.readArguments call rest).outcome with
    | error fault => rfl
    | ok after => rfl

end PackageRecipe
