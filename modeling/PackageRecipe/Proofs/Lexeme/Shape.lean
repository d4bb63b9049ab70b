import PackageRecipe.Proofs.Lexeme.Extent

/-!
What a lexeme's text looks like. `State.Reads` describes the texts that lead the machine to a
state; every step keeps the description, so a state in which a lexeme may end tells its form.
-/
namespace PackageRecipe.Lexeme

theorem signKind?_eq_some {text : List Char} {kind : Token.Kind} (h : signKind? text = some kind) :
    kind = .operator ∨ kind = .delimiter := by
  unfold signKind? at h
  split at h
  · exact .inl (Option.some.inj h).symm
  · split at h
    · exact .inr (Option.some.inj h).symm
    · cases h

theorem wordKind_eq (word : List Char) :
    wordKind word = .keyword ∨ wordKind word = .identifier := by
  unfold wordKind
  split
  · exact .inl rfl
  · exact .inr rfl

/-- The mark that the reader of a string waits for is `q`. -/
def Quoted.HasMark (q : Char) : Quoted → Prop
  | opened p | empty p | short p | shortEscape p | long p _ | longEscape p => p = q
  | closed => True

theorem Quoted.HasMark.step {q c : Char} {string next : Quoted} (h : string.HasMark q)
    (hs : string.step c = some next) : next.HasMark q := by
  have short : ∀ {n : Quoted}, shortStep q c = some n → n.HasMark q := by
    intro n hn
    unfold shortStep at hn
    grind [HasMark]
  cases string with
  | opened p =>
    obtain rfl : p = q := h
    rw [Quoted.step] at hs
    split at hs
    · obtain rfl := Option.some.inj hs
      rfl
    · exact short hs
  | short p =>
    obtain rfl : p = q := h
    exact short hs
  | empty p | shortEscape p | long p marks | longEscape p | closed =>
    unfold Quoted.step at hs
    grind [HasMark]

namespace State

/-- The texts that lead to a state. -/
def Reads : State → List Char → Prop
  | space, cs => cs ≠ [] ∧ ∀ c ∈ cs, isSpace c = true
  | lineBreak, cs => cs ≠ [] ∧ ∀ c ∈ cs, isLineBreak c = true
  | comment, cs => ∃ body, cs = '#' :: body ∧ ∀ c ∈ body, isLineBreak c = false
  | backslash, cs => cs = ['\\']
  | continuation true, cs => cs = ['\\', '\r']
  | continuation false, cs => cs = ['\\', '\n'] ∨ cs = ['\\', '\r', '\n']
  | word letters, cs => cs = letters.reverse ∧
      ∃ c body, cs = c :: body ∧ Text.opensName c = true ∧ ∀ d ∈ body, Text.extendsName d = true
  | quoted string, cs => ∃ letters q body, cs = letters ++ q :: body ∧ isQuote q = true ∧
      string.HasMark q ∧
      (letters = [] ∨ opensString letters = true ∧ ∀ c ∈ letters.head?, Text.opensName c = true)
  | numeral _, cs => ∃ c body, cs = c :: body ∧ (c.isDigit = true ∨ c = '.')
  | exclamation, cs => cs = ['!']
  | sign text kind, cs => cs = text ∧ signKind? text = some kind

theorem reads_ofChar {c : Char} {state : State} (h : ofChar c = .ok state) : state.Reads [c] := by
  unfold ofChar at h
  split at h
  · rename_i hc
    obtain rfl := Except.ok.inj h
    simpa [Reads] using hc
  split at h
  · rename_i hc
    obtain rfl := Except.ok.inj h
    simpa [Reads] using hc
  split at h
  · rename_i hc
    obtain rfl := Except.ok.inj h
    rw [hc]
    rfl
  split at h
  · rename_i hc
    obtain rfl := Except.ok.inj h
    exact ⟨[], by rw [hc], nofun⟩
  split at h
  · rename_i hc
    obtain rfl := Except.ok.inj h
    exact ⟨[], c, [], rfl, hc, rfl, .inl rfl⟩
  split at h
  · rename_i hc
    obtain rfl := Except.ok.inj h
    exact ⟨c, [], rfl, .inl hc⟩
  split at h
  · rename_i hc
    obtain rfl := Except.ok.inj h
    exact ⟨rfl, c, [], rfl, hc, nofun⟩
  split at h
  · rename_i hc
    obtain rfl := Except.ok.inj h
    rw [hc]
    rfl
  split at h
  · rename_i kind hk
    obtain rfl := Except.ok.inj h
    exact ⟨rfl, hk⟩
  · cases h

theorem reads_extendSign {text : List Char} {c : Char} {next : State}
    (h : extendSign text c = some next) : next.Reads (text ++ [c]) := by
  unfold extendSign at h
  split at h
  · rename_i kind hk
    obtain rfl := Option.some.inj h
    exact ⟨rfl, hk⟩
  · split at h
    · rename_i hp
      obtain rfl := Option.some.inj h
      have ht : text = ['.'] := by simpa using (Bool.and_eq_true_iff.1 hp).1
      exact ⟨'.', [c], by simp [ht]⟩
    · cases h

/-- Each step adds its character to the text. -/
theorem Reads.step {state next : State} {cs : List Char} {c : Char} (h : state.Reads cs)
    (hs : state.step c = some next) : next.Reads (cs ++ [c]) := by
  cases state with
  | space =>
    obtain ⟨hc, rfl⟩ : isSpace c = true ∧ space = next := by simpa [State.step] using hs
    refine ⟨by simp, ?_⟩
    simpa [or_imp, forall_and, hc] using h.2
  | lineBreak =>
    obtain ⟨hc, rfl⟩ : isLineBreak c = true ∧ lineBreak = next := by simpa [State.step] using hs
    refine ⟨by simp, ?_⟩
    simpa [or_imp, forall_and, hc] using h.2
  | comment =>
    obtain ⟨body, rfl, hb⟩ := h
    obtain ⟨hc, rfl⟩ : isLineBreak c = false ∧ comment = next := by simpa [State.step] using hs
    refine ⟨body ++ [c], rfl, ?_⟩
    simpa [or_imp, forall_and, hc] using hb
  | backslash =>
    obtain rfl : cs = ['\\'] := h
    obtain ⟨hc, rfl⟩ : isLineBreak c = true ∧ continuation (c = '\r') = next := by
      simpa [State.step] using hs
    rcases isLineBreak_iff.1 hc with rfl | rfl
    · exact .inl rfl
    · exact rfl
  | continuation lineFeed =>
    obtain ⟨⟨rfl, rfl⟩, rfl⟩ : (lineFeed = true ∧ c = '\n') ∧ continuation false = next := by
      simpa [State.step] using hs
    obtain rfl : cs = ['\\', '\r'] := h
    exact .inr rfl
  | word letters =>
    obtain ⟨rfl, d, body, hd, ho, hb⟩ := h
    rw [State.step] at hs
    split at hs
    · rename_i hc
      obtain rfl := Option.some.inj hs
      refine ⟨by simp, d, body ++ [c], by rw [hd]; rfl, ho, ?_⟩
      simpa [or_imp, forall_and, hc] using hb
    · split at hs
      · rename_i hc
        obtain rfl := Option.some.inj hs
        obtain ⟨hq, hl⟩ := Bool.and_eq_true_iff.1 hc
        exact ⟨letters.reverse, c, [], rfl, hq, rfl, .inr ⟨hl, by simpa [hd] using ho⟩⟩
      · cases hs
  | quoted string =>
    obtain ⟨letters, q, body, rfl, hq, hm, hl⟩ := h
    obtain ⟨next, hn, rfl⟩ := Option.map_eq_some_iff.1 hs
    exact ⟨letters, q, body ++ [c], by simp, hq, hm.step hn, hl⟩
  | numeral number =>
    obtain ⟨d, body, rfl, hd⟩ := h
    obtain ⟨next, -, rfl⟩ := Option.map_eq_some_iff.1 hs
    exact ⟨d, body ++ [c], by simp, hd⟩
  | exclamation =>
    obtain rfl : cs = ['!'] := h
    exact reads_extendSign hs
  | sign text kind =>
    obtain ⟨rfl, -⟩ := h
    exact reads_extendSign hs

/-- The state in which a lexeme's text ends describes that text. -/
theorem reads_ofText? {cs : List Char} {last : State} (h : ofText? cs = some last) :
    last.Reads cs :=
  ofText?_invariant Reads reads_ofChar Reads.step h

/-- As `ofText?_invariant`, for what only the steps of texts keep that lead to their state. -/
theorem ofText?_invariant_of_reads (Holds : State → List Char → Prop)
    (first : ∀ {c : Char} {state : State}, ofChar c = .ok state → Holds state [c])
    (step : ∀ {state next : State} {taken : List Char} {c : Char}, state.Reads taken →
      Holds state taken → state.step c = some next → Holds next (taken ++ [c]))
    {text : List Char} {last : State} (h : ofText? text = some last) : Holds last text :=
  (ofText?_invariant (fun state taken => state.Reads taken ∧ Holds state taken)
    (fun hc => ⟨reads_ofChar hc, first hc⟩)
    (fun h hs => ⟨h.1.step hs, step h.1 h.2 hs⟩) h).2

/-- Signs are operators or delimiters, words are names: no other kind comes from them. -/
theorem Reads.finish_cases {state : State} {cs : List Char} {kind : Token.Kind}
    (h : state.Reads cs) (hf : state.finish none = .ok kind) :
    (kind = .whitespace ∧ (state = space ∨ ∃ lineFeed, state = continuation lineFeed)) ∨
    (kind = .newline ∧ state = lineBreak) ∨
    (kind = .comment ∧ state = comment) ∨
    (kind = .string ∧ ∃ string, state = quoted string ∧ string.fault? none = none) ∨
    (kind = .number ∧ ∃ number, state = numeral number ∧ number.fault? = none) ∨
    ((kind = .keyword ∨ kind = .identifier) ∧ ∃ letters, state = word letters) ∨
    ((kind = .operator ∨ kind = .delimiter) ∧ state = sign cs kind) := by
  cases state with
  | space | lineBreak | comment => simp_all [finish]
  | continuation lineFeed => simp_all [finish]
  | backslash | exclamation => simp [finish] at hf
  | word letters =>
    obtain rfl := Except.ok.inj hf
    simp [wordKind_eq]
  | quoted string =>
    cases hs : string.fault? none <;> simp_all [finish]
  | numeral number =>
    cases hn : number.fault? <;> simp_all [finish]
  | sign text k =>
    obtain ⟨rfl, hk⟩ := h
    obtain rfl := Except.ok.inj hf
    simp [signKind?_eq_some hk]

end State
end PackageRecipe.Lexeme
