import PackageRecipe.Proofs.Call.Grammar
import PackageRecipe.Proofs.Phrase.Header
import PackageRecipe.Proofs.Phrase.Walk

/-!
When a class header is found. The first token outside brackets that is a line break, a colon or a
closing bracket ends it: the colon completes the header, the others make it fail. If there is none,
the header fails at the end of the tokens. Outside brackets means that as many are closed as opened
before the token; up to the end of the header the count that is kept is this difference, so it is
never taken below zero.
-/
namespace PackageRecipe

open Call (nesting nesting_cons)

/-- Outside brackets such a token completes a class header or makes it fail. -/
def Token.endsHeader (t : Token) : Bool := t.isBreak || t.isDelimiter ":" || t.isCloser

/-- The first token outside brackets that ends a class header is `t`, at the place `i`. -/
structure HeaderEnd (tokens : List Token) (i : Nat) (t : Token) : Prop where
  found : tokens[i]? = some t
  outside : nesting (tokens.take i) = 0
  ends : t.endsHeader = true
  first : ∀ j < i, ∀ u ∈ tokens[j]?, nesting (tokens.take j) = 0 → u.endsHeader = false

theorem headerEnd_iff {tokens : List Token} {i : Nat} {t : Token} : HeaderEnd tokens i t ↔
    tokens[i]? = some t ∧ nesting (tokens.take i) = 0 ∧ t.endsHeader = true ∧
      ∀ j < i, ∀ u ∈ tokens[j]?, nesting (tokens.take j) = 0 → u.endsHeader = false :=
  ⟨fun h => ⟨h.found, h.outside, h.ends, h.first⟩,
    fun ⟨found, outside, ends, first⟩ => ⟨found, outside, ends, first⟩⟩

instance (tokens : List Token) (i : Nat) (t : Token) : Decidable (HeaderEnd tokens i t) :=
  decidable_of_iff' _ headerEnd_iff

/-- What ends a header is of one of three kinds and of no other. -/
theorem Token.endsHeader_cases {t : Token} (h : t.endsHeader = true) :
    (t.isDelimiter ":" = true ∧ t.isBreak = false ∧ t.isCloser = false) ∨
      (t.isBreak = true ∧ t.isDelimiter ":" = false ∧ t.isCloser = false) ∨
      (t.isCloser = true ∧ t.isBreak = false ∧ t.isDelimiter ":" = false) := by
  by_cases hk : t.isCloser = true
  · exact .inr (.inr ⟨hk, not_isBreak_of_isCloser hk⟩)
  · have hk : t.isCloser = false := by simpa using hk
    by_cases hc : t.isDelimiter ":" = true
    · exact .inl ⟨hc, not_isBreak_of_isDelimiter hc, hk⟩
    · have hc : t.isDelimiter ":" = false := by simpa using hc
      exact .inr (.inl ⟨by simpa [endsHeader, hc, hk] using h, hc, hk⟩)

namespace InHeader

variable {depth : Nat} {t : Token} {ts : List Token}

theorem cons_iff : InHeader depth (t :: ts) ↔
    (depth = 0 → t.endsHeader = false) ∧ InHeader (t.depthAfter depth) ts := by
  rw [InHeader, Token.endsHeader]
  simp only [Bool.or_eq_false_iff, and_assoc]

/-- The count that a header keeps is the difference of the brackets opened and closed. -/
theorem openAfter_eq (h : InHeader depth ts) : (openAfter depth ts : Int) = depth + nesting ts := by
  induction ts generalizing depth with
  | nil => simp [openAfter, nesting]
  | cons t ts ih =>
    obtain ⟨ht, hts⟩ := h
    rw [nesting_cons fun hd => (ht hd).2.2, ← ih hts]
    rfl

/-- Nothing that a header passes ends it. -/
theorem not_endsHeader (h : InHeader depth ts) {i : Nat} (hi : ts[i]? = some t)
    (ho : depth + nesting (ts.take i) = 0) : t.endsHeader = false := by
  induction ts generalizing depth i with
  | nil => cases hi
  | cons u ts ih =>
    obtain ⟨hu, hts⟩ := cons_iff.1 h
    cases i with
    | zero =>
      obtain rfl : u = t := Option.some.inj hi
      refine hu ?_
      simpa [nesting] using ho
    | succ i =>
      rw [List.take_succ_cons, nesting_cons fun hd => (h.1 hd).2.2] at ho
      exact ih hts hi ho

/-- A header ends at the first token that it does not pass. -/
theorem headerEnd {n : Nat} (h : InHeader 0 (ts.take n)) (ho : openAfter 0 (ts.take n) = 0)
    (hn : ts[n]? = some t) (ht : t.endsHeader = true) : HeaderEnd ts n t := by
  have hcount := h.openAfter_eq
  refine ⟨hn, by omega, ht, ?_⟩
  intro j hj u hu hz
  refine h.not_endsHeader (i := j) ?_ ?_
  · rw [List.getElem?_take_of_lt hj]
    exact hu
  · rw [List.take_take, Nat.min_eq_left hj.le, hz]
    rfl

end InHeader

/-- A header passes all tokens, or all up to one that ends it. -/
theorem inHeader_or_ends (depth : Nat) (tokens : List Token) :
    InHeader depth tokens ∨ ∃ ts t us, tokens = ts ++ t :: us ∧ InHeader depth ts ∧
      openAfter depth ts = 0 ∧ t.endsHeader = true := by
  induction tokens generalizing depth with
  | nil => exact .inl trivial
  | cons t us ih =>
    by_cases ht : depth = 0 ∧ t.endsHeader = true
    · exact .inr ⟨[], t, us, rfl, trivial, ht⟩
    · have hpass : depth = 0 → t.endsHeader = false := by
        intro hd
        simpa [hd] using ht
      rcases ih (t.depthAfter depth) with h | ⟨ts, u, vs, rfl, hts, ho, hu⟩
      · exact .inl (InHeader.cons_iff.2 ⟨hpass, h⟩)
      · exact .inr ⟨t :: ts, u, vs, rfl, InHeader.cons_iff.2 ⟨hpass, hts⟩, ho, hu⟩

/-- Behind the tokens that a header passes it goes on with the count that they leave. -/
theorem Attempt.header_eq_prepend {tokens : List Token} {n : Nat}
    (h : InHeader 0 (tokens.take n)) : header 0 tokens =
      (header (openAfter 0 (tokens.take n)) (tokens.drop n)).prepend (tokens.take n) := by
  have all := header_append_of_inHeader h (tokens.drop n)
  rwa [List.take_append_drop] at all

/-- A header passes the tokens up to its end. -/
theorem inHeader_take {tokens : List Token} {n : Nat}
    (h : ∀ i < n, ∀ t, ¬ HeaderEnd tokens i t) : InHeader 0 (tokens.take n) := by
  rcases inHeader_or_ends 0 (tokens.take n) with hn | ⟨ts, t, us, he, hts, ho, ht⟩
  · exact hn
  · -- what ends the header among the first tokens ends it among all, at the same place
    have hall : tokens = ts ++ t :: (us ++ tokens.drop n) := by
      rw [← List.cons_append, ← List.append_assoc, ← he, List.take_append_drop]
    have hlen : ts.length < n := by
      have hle := congrArg List.length he
      simp only [List.length_take, List.length_append, List.length_cons] at hle
      omega
    have htake : tokens.take ts.length = ts := by rw [hall, List.take_left]
    have hget : tokens[ts.length]? = some t := by
      rw [hall]
      simp
    refine absurd (InHeader.headerEnd ?_ ?_ hget ht) (h ts.length hlen t)
    · rwa [htake]
    · rwa [htake]

namespace HeaderEnd

variable {tokens : List Token} {i j : Nat} {t u : Token}

theorem not_lt (hi : HeaderEnd tokens i t) (hj : HeaderEnd tokens j u) : ¬ i < j := by
  intro hlt
  have hn := hj.first i hlt t hi.found hi.outside
  rw [hi.ends] at hn
  cases hn

/-- A header has one end. -/
theorem unique (hi : HeaderEnd tokens i t) (hj : HeaderEnd tokens j u) : i = j ∧ t = u := by
  have hle := hi.not_lt hj
  have hge := hj.not_lt hi
  obtain rfl : i = j := by omega
  exact ⟨rfl, Option.some.inj (hi.found.symm.trans hj.found)⟩

theorem exists_iff (h : HeaderEnd tokens i t) {p : Token → Prop} :
    (∃ j u, HeaderEnd tokens j u ∧ p u) ↔ p t := by
  constructor
  · rintro ⟨j, u, hj, hu⟩
    obtain ⟨rfl, rfl⟩ := h.unique hj
    exact hu
  · exact fun ht => ⟨i, t, h, ht⟩

/-- A header comes to its end with no bracket open. -/
theorem header_eq (h : HeaderEnd tokens i t) : Attempt.header 0 tokens =
    (Attempt.header 0 (t :: tokens.drop (i + 1))).prepend (tokens.take i) := by
  have hp : InHeader 0 (tokens.take i) := inHeader_take fun j hj u hu => hu.not_lt h hj
  have ho : openAfter 0 (tokens.take i) = 0 := by
    have hn := hp.openAfter_eq
    rw [h.outside] at hn
    omega
  obtain ⟨hi, rfl⟩ := List.getElem?_eq_some_iff.1 h.found
  rw [Attempt.header_eq_prepend hp, ho, List.drop_eq_getElem_cons hi]

/-- A header that ends with a colon takes the tokens through the colon. -/
theorem header_of_colon (h : HeaderEnd tokens i t) (ht : t.isDelimiter ":" = true) :
    Attempt.header 0 tokens = ⟨⟨tokens.take (i + 1), tokens.drop (i + 1)⟩, .ok ()⟩ := by
  have hb := Token.not_isBreak_of_isDelimiter ht
  have hc : Attempt.header 0 (t :: tokens.drop (i + 1)) =
      ⟨⟨[t], tokens.drop (i + 1)⟩, .ok ()⟩ := by simp [Attempt.header, hb, ht]
  rw [h.header_eq, hc, List.take_add_one, h.found]
  rfl

end HeaderEnd

namespace Attempt

/-- A header that nothing ends fails at the end of the tokens. -/
theorem header_of_not_headerEnd {tokens : List Token} (h : ∀ i t, ¬ HeaderEnd tokens i t) :
    0 ≤ nesting tokens ∧ (header 0 tokens).outcome =
      .error (if nesting tokens = 0 then .missingColon else .unclosedBrackets) := by
  have hp : InHeader 0 (tokens.take tokens.length) := inHeader_take fun i _ => h i
  have hn := hp.openAfter_eq
  have all := header_eq_prepend hp
  rw [List.take_length] at hn all
  have hz : openAfter 0 tokens = 0 ↔ nesting tokens = 0 := by omega
  refine ⟨by omega, ?_⟩
  rw [all, List.drop_length]
  simp only [header, prepend, hz]

/-- What becomes of a header, by the token that ends it. -/
theorem header_outcome_iff (tokens : List Token) :
    ((header 0 tokens).outcome = .ok () ↔ ∃ i t, HeaderEnd tokens i t ∧ t.isDelimiter ":" = true) ∧
      ((header 0 tokens).outcome = .error .unmatchedBracket ↔
        ∃ i t, HeaderEnd tokens i t ∧ t.isCloser = true) ∧
      ((header 0 tokens).outcome = .error .missingColon ↔
        (∃ i t, HeaderEnd tokens i t ∧ t.isBreak = true) ∨
          (∀ i t, ¬ HeaderEnd tokens i t) ∧ nesting tokens = 0) ∧
      ((header 0 tokens).outcome = .error .unclosedBrackets ↔
        (∀ i t, ¬ HeaderEnd tokens i t) ∧ 0 < nesting tokens) := by
  by_cases hd : ∃ i t, HeaderEnd tokens i t
  · obtain ⟨i, t, hd⟩ := hd
    have he : (header 0 tokens).outcome = (header 0 (t :: tokens.drop (i + 1))).outcome := by
      rw [hd.header_eq]
      rfl
    have hn : ¬ ∀ j u, ¬ HeaderEnd tokens j u := fun hn => hn i t hd
    rcases Token.endsHeader_cases hd.ends with ⟨ht, hb, hk⟩ | ⟨ht, hc, hk⟩ | ⟨ht, hb, hc⟩
    · simp [he, header, hd.exists_iff, hn, ht, hb, hk]
    · simp [he, header, hd.exists_iff, hn, ht, hc, hk]
    · simp [he, header, hd.exists_iff, hn, ht, hb, hc]
  · have hn : ∀ i t, ¬ HeaderEnd tokens i t := fun i t h => hd ⟨i, t, h⟩
    obtain ⟨hle, he⟩ := header_of_not_headerEnd hn
    by_cases hz : nesting tokens = 0
    · simp [he, hn, hz]
    · have hlt : 0 < nesting tokens := by omega
      simp [he, hn, hz, hlt]

end Attempt

namespace Walk

/-- A walk before a class header takes what the header reaches. -/
theorem advance_of_class {w : Walk} {breaks ts : List Token} (hw : w.ahead = breaks ++ ts)
    (hb : ∀ t ∈ breaks, t.isBreak = true) (hc : ∃ t ∈ ts.head?, t.isKeyword "class" = true) :
    (w.advance .preamble).1.mapError PhraseError.fault =
        ((Attempt.header 0 ts).outcome.map fun _ => .phrase .classHeader .body) ∧
      (w.advance .preamble).2 =
        ⟨w.closed, w.current ++ (breaks ++ (Attempt.header 0 ts).cut.taken),
          (Attempt.header 0 ts).cut.rest⟩ := by
  obtain ⟨t, ht, hc⟩ := hc
  obtain ⟨us, rfl⟩ := List.head?_eq_some_iff.1 ht
  have hl : Region.preamble.isLead t = false :=
    Region.isLead_eq_false_of_not_isBlank (Token.not_isBlank_of_isKeyword hc)
  have ha : Region.preamble.advance w.ahead =
      ⟨(Attempt.header 0 (t :: us)).cut.prepend breaks,
        (Attempt.header 0 (t :: us)).outcome.map fun _ => .phrase .classHeader .body⟩ := by
    rw [hw, Region.advance_of_lead hb hl, Region.phraseAt_of_class hc]
    rfl
  rw [advance, ha]
  refine ⟨?_, rfl⟩
  cases (Attempt.header 0 (t :: us)).outcome with
  | error fault => rfl
  | ok u => rfl

/-- Wherever a walk stands before a class header, with line breaks before it: the first line break,
colon or closing bracket outside brackets ends the header. A colon completes it, and it takes all
tokens up to the colon and no more; a line break or the end of the tokens outside brackets leaves it
without its colon; a closing bracket is one too many; and the end of the tokens inside brackets
leaves them open. Up to its end the header goes on with a count that is the number of brackets
opened less the number of brackets closed, and a closing bracket that finds the count at zero is the
end, so it is never taken below zero. -/
theorem advance_classHeader {w : Walk} {breaks ts : List Token} (hw : w.ahead = breaks ++ ts)
    (hb : ∀ t ∈ breaks, t.isBreak = true) (hc : ∃ t ∈ ts.head?, t.isKeyword "class" = true) :
    let outcome := (w.advance .preamble).1.mapError PhraseError.fault
    (∀ finding, outcome = .ok finding ↔
      finding = .phrase .classHeader .body ∧ ∃ i t, HeaderEnd ts i t ∧ t.isDelimiter ":" = true) ∧
    (∀ i t, HeaderEnd ts i t → t.isDelimiter ":" = true → (w.advance .preamble).2 =
      ⟨w.closed, w.current ++ (breaks ++ ts.take (i + 1)), ts.drop (i + 1)⟩) ∧
    (outcome = .error .unmatchedBracket ↔ ∃ i t, HeaderEnd ts i t ∧ t.isCloser = true) ∧
    (outcome = .error .missingColon ↔ (∃ i t, HeaderEnd ts i t ∧ t.isBreak = true) ∨
      (∀ i t, ¬ HeaderEnd ts i t) ∧ nesting ts = 0) ∧
    (outcome = .error .unclosedBrackets ↔ (∀ i t, ¬ HeaderEnd ts i t) ∧ 0 < nesting ts) ∧
    ∀ n, (∀ i < n, ∀ t, ¬ HeaderEnd ts i t) →
      Attempt.header 0 ts =
          (Attempt.header (openAfter 0 (ts.take n)) (ts.drop n)).prepend (ts.take n) ∧
        (openAfter 0 (ts.take n) : Int) = nesting (ts.take n) ∧
        ∀ t ∈ ts[n]?, t.isCloser = true → openAfter 0 (ts.take n) = 0 → HeaderEnd ts n t := by
  intro outcome
  obtain ⟨ho, hcut⟩ := advance_of_class hw hb hc
  obtain ⟨found, unmatched, missing, unclosed⟩ := Attempt.header_outcome_iff ts
  have hout : outcome = (Attempt.header 0 ts).outcome.map fun _ => .phrase .classHeader .body := ho
  have herror : ∀ fault,
      outcome = .error fault ↔ (Attempt.header 0 ts).outcome = .error fault := by
    intro fault
    rw [hout]
    cases (Attempt.header 0 ts).outcome <;> simp [Except.map]
  refine ⟨?_, ?_, (herror _).trans unmatched, (herror _).trans missing,
    (herror _).trans unclosed, ?_⟩
  · intro finding
    rw [← found, hout]
    cases (Attempt.header 0 ts).outcome <;> simp [Except.map, eq_comm]
  · intro i t hd ht
    rw [hcut, hd.header_of_colon ht]
  · intro n hn
    have hp := inHeader_take hn
    have hcount := hp.openAfter_eq
    refine ⟨Attempt.header_eq_prepend hp, by omega, fun t ht hk hz => hp.headerEnd hz ht ?_⟩
    rw [Token.endsHeader, hk, Bool.or_true]

/-- A walk inside a phrase, before a header with a line break, a colon and another bracket in its
brackets. With a colon behind them it is found; a bracket too many, and the end inside the brackets,
make it fail. -/
theorem advance_classHeader_bracketed :
    let breaks : List Token := [⟨.newline, "\n"⟩, ⟨.newline, "\n"⟩]
    let opened : List Token := [⟨.keyword, "class"⟩, ⟨.delimiter, "("⟩, ⟨.newline, "\n"⟩,
      ⟨.delimiter, ":"⟩, ⟨.delimiter, "["⟩]
    let closed := opened ++ [⟨.delimiter, "\x7d"⟩, ⟨.delimiter, ")"⟩]
    let header := closed ++ [⟨.delimiter, ":"⟩]
    let behind (ts : List Token) : Walk := ⟨[⟨.comment, "#"⟩], [⟨.newline, "\n"⟩], breaks ++ ts⟩
    let outcome (ts : List Token) := ((behind ts).advance .preamble).1.mapError PhraseError.fault
    outcome (header ++ [⟨.identifier, "x"⟩]) = .ok (.phrase .classHeader .body) ∧
      ((behind (header ++ [⟨.identifier, "x"⟩])).advance .preamble).2 =
        ⟨[⟨.comment, "#"⟩], ⟨.newline, "\n"⟩ :: breaks ++ header, [⟨.identifier, "x"⟩]⟩ ∧
      outcome (closed ++ [⟨.delimiter, "]"⟩]) = .error .unmatchedBracket ∧
      outcome opened = .error .unclosedBrackets ∧ (∀ i t, ¬ HeaderEnd opened i t) ∧
      0 < nesting opened := by
  intro breaks opened closed header behind outcome
  have hb : ∀ t ∈ breaks, t.isBreak = true := by decide
  have hcolon : HeaderEnd (header ++ [⟨.identifier, "x"⟩]) 7 ⟨.delimiter, ":"⟩ := by decide
  have hcloser : HeaderEnd (closed ++ [⟨.delimiter, "]"⟩]) 7 ⟨.delimiter, "]"⟩ := by decide
  have hunclosed : outcome opened = .error .unclosedBrackets := by decide
  have whole := advance_classHeader (w := behind (header ++ [⟨.identifier, "x"⟩])) rfl hb
    ⟨_, rfl, by decide⟩
  have excess := advance_classHeader (w := behind (closed ++ [⟨.delimiter, "]"⟩])) rfl hb
    ⟨_, rfl, by decide⟩
  have short := advance_classHeader (w := behind opened) rfl hb ⟨_, rfl, by decide⟩
  refine ⟨?_, ?_, ?_, hunclosed, ?_⟩
  · exact (whole.1 _).2 ⟨rfl, 7, _, hcolon, rfl⟩
  · exact whole.2.1 7 _ hcolon rfl
  · exact excess.2.2.1.2 ⟨7, _, hcloser, rfl⟩
  · exact short.2.2.2.2.1.1 hunclosed

end Walk

end PackageRecipe
