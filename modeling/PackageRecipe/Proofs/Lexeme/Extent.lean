import PackageRecipe.Lexeme.State

/-!
Where a lexeme ends. A run takes the text that the machine goes through and stops before a character
that its last state refuses, so what follows a lexeme matters by its first character only, and for
a well-ended lexeme only in that it must be refused.
-/
namespace PackageRecipe.Lexeme

theorem isLineBreak_iff {c : Char} : isLineBreak c = true ↔ c = '\n' ∨ c = '\r' := by
  simp [isLineBreak]

theorem isSpace_iff {c : Char} : isSpace c = true ↔ c = ' ' ∨ c = '\t' ∨ c = '\x0c' := by
  simp [isSpace, or_assoc]

theorem not_isLineBreak_of_isSpace {c : Char} (h : isSpace c = true) : isLineBreak c = false := by
  rcases isSpace_iff.1 h with rfl | rfl | rfl <;> rfl

namespace State

/-- The state after more characters, if the lexeme goes on with all of them. -/
def after? (state : State) (cs : List Char) : Option State := cs.foldlM step state

/-- The state in which a lexeme with this text ends. -/
def ofText? : List Char → Option State
  | [] => none
  | c :: cs => (ofChar c).toOption.bind fun state => state.after? cs

/-- A lexeme in this state does not go on with what follows it. -/
def StopsBefore (rest : List Char) (state : State) : Prop := ∀ c ∈ rest.head?, state.step c = none

@[simp] theorem after?_nil (state : State) : state.after? [] = some state := rfl

theorem after?_cons (state : State) (c : Char) (cs : List Char) :
    state.after? (c :: cs) = (state.step c).bind fun next => next.after? cs :=
  List.foldlM_cons

theorem after?_append (state : State) (cs ds : List Char) :
    state.after? (cs ++ ds) = (state.after? cs).bind fun next => next.after? ds :=
  List.foldlM_append

/-- Nothing but a string goes on with a string. -/
theorem after?_quoted {string : Quoted} {last : State} {cs : List Char}
    (h : (quoted string).after? cs = some last) : ∃ after, last = quoted after := by
  induction cs generalizing string with
  | nil => exact ⟨string, (Option.some.inj h).symm⟩
  | cons c cs ih =>
    rw [after?_cons] at h
    obtain ⟨next, hs, h⟩ := Option.bind_eq_some_iff.1 h
    obtain ⟨after, -, rfl⟩ := Option.map_eq_some_iff.1 hs
    exact ih h

theorem stopsBefore_nil (state : State) : state.StopsBefore [] := by
  simp [StopsBefore]

theorem stopsBefore_cons {state : State} {c : Char} {cs : List Char} :
    state.StopsBefore (c :: cs) ↔ state.step c = none := by
  simp [StopsBefore]

theorem ofText?_cons_eq_some_iff {c : Char} {cs : List Char} {last : State} :
    ofText? (c :: cs) = some last ↔
      ∃ state, ofChar c = .ok state ∧ state.after? cs = some last := by
  rw [ofText?]
  cases ofChar c with
  | error fault => simp [Except.toOption]
  | ok state => simp [Except.toOption]

/-- A lexeme's text goes through the states of its beginnings. -/
theorem ofText?_append {cs : List Char} (h : cs ≠ []) (ds : List Char) :
    ofText? (cs ++ ds) = (ofText? cs).bind fun next => next.after? ds := by
  obtain ⟨c, cs, rfl⟩ := List.exists_cons_of_ne_nil h
  simp only [List.cons_append, ofText?, after?_append, Option.bind_assoc]

/-- What every step keeps for the text taken so far holds when all the text is taken. -/
theorem after?_invariant (Holds : State → List Char → Prop)
    (step : ∀ {state next : State} {taken : List Char} {c : Char}, Holds state taken →
      state.step c = some next → Holds next (taken ++ [c]))
    {state last : State} {taken cs : List Char} (h : Holds state taken)
    (ha : state.after? cs = some last) : Holds last (taken ++ cs) := by
  induction cs generalizing state taken with
  | nil =>
    obtain rfl := Option.some.inj ha
    rwa [List.append_nil]
  | cons c cs ih =>
    rw [after?_cons] at ha
    obtain ⟨next, hs, ha⟩ := Option.bind_eq_some_iff.1 ha
    have := ih (step h hs) ha
    rwa [List.append_assoc] at this

/-- What the first character establishes and every step keeps holds of a lexeme's whole text. -/
theorem ofText?_invariant (Holds : State → List Char → Prop)
    (first : ∀ {c : Char} {state : State}, ofChar c = .ok state → Holds state [c])
    (step : ∀ {state next : State} {taken : List Char} {c : Char}, Holds state taken →
      state.step c = some next → Holds next (taken ++ [c]))
    {text : List Char} {last : State} (h : ofText? text = some last) : Holds last text := by
  cases text with
  | nil => simp [ofText?] at h
  | cons c cs =>
    obtain ⟨state, hc, ha⟩ := ofText?_cons_eq_some_iff.1 h
    exact after?_invariant Holds step (first hc) ha

/-- What the machine goes through is the beginning of its run. -/
theorem run_of_after? {state next : State} {taken : List Char}
    (through : state.after? taken = some next) (cs : List Char) :
    state.run (taken ++ cs) =
      ⟨taken ++ (next.run cs).taken, (next.run cs).last, (next.run cs).rest⟩ := by
  induction taken generalizing state with
  | nil =>
    obtain rfl := Option.some.inj through
    rfl
  | cons c taken ih =>
    rw [after?_cons] at through
    obtain ⟨after, step, through⟩ := Option.bind_eq_some_iff.1 through
    rw [List.cons_append, run, step]
    exact congrArg (Run.cons c) (ih through)

theorem run_of_stopsBefore {state : State} {rest : List Char} (stops : state.StopsBefore rest) :
    state.run rest = ⟨[], state, rest⟩ := by
  cases rest with
  | nil => rfl
  | cons c cs => rw [run, stopsBefore_cons.1 stops]

/-- A run takes what the machine goes through, and no more. -/
theorem run_append {state last : State} {taken rest : List Char}
    (through : state.after? taken = some last) (stops : last.StopsBefore rest) :
    state.run (taken ++ rest) = ⟨taken, last, rest⟩ := by
  rw [run_of_after? through, run_of_stopsBefore stops, List.append_nil]

theorem after?_run (state : State) (cs : List Char) :
    state.after? (state.run cs).taken = some (state.run cs).last := by
  induction cs generalizing state with
  | nil => rfl
  | cons c cs ih =>
    rw [run]
    split
    · rfl
    · rename_i next step
      rw [Run.cons, after?_cons, step]
      exact ih next

theorem stopsBefore_run (state : State) (cs : List Char) :
    (state.run cs).last.StopsBefore (state.run cs).rest := by
  induction cs generalizing state with
  | nil => exact stopsBefore_nil _
  | cons c cs ih =>
    rw [run]
    split
    · rename_i refused
      exact stopsBefore_cons.2 refused
    · exact ih _

/-- Whether a lexeme ends well does not hang on what follows it; only the fault of an unclosed
string does. -/
theorem finish_eq_ok_iff {state : State} {next : Option Char} {kind : Token.Kind} :
    state.finish next = .ok kind ↔ state.finish none = .ok kind := by
  cases state with
  | quoted string =>
    cases string with
    | opened | short =>
      cases next with
      | none => rfl
      | some c => exact ⟨nofun, nofun⟩
    | empty | shortEscape | long | longEscape | closed => rfl
  | space | lineBreak | comment | backslash | continuation | word | numeral | exclamation | sign =>
    rfl

end State
end PackageRecipe.Lexeme
