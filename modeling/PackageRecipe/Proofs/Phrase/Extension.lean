import Mathlib
import PackageRecipe.Phrase.Walk
import PackageRecipe.Proofs.Phrase.Header
import PackageRecipe.Proofs.Phrase.Neighbour

/-!
What more tokens at the end can change. A phrase of the preamble ends where the next token says so,
so once a phrase or a fault follows it, nothing behind that matters to it; the class header ends
with its own colon; and the body takes whatever comes. So the phrases up to the class header stay
what they are, a fault that shows in the tokens stays a fault, and a header whose brackets are still
open at the end can be completed.
-/
namespace PackageRecipe

namespace Region

variable {p : Phrase} {rest other : List Token}

/-- What fails stands behind a lead. -/
theorem exists_lead_of_error {region : Region} {tokens : List Token} {fault : PhraseFault}
    (h : (region.advance tokens).outcome = .error fault) :
    ∃ lead t ts, tokens = lead ++ t :: ts ∧ (∀ u ∈ lead, region.isLead u = true) ∧
      region.isLead t = false ∧ (region.phraseAt t ts).outcome = .error fault := by
  have all := List.takeWhile_append_dropWhile (p := region.isLead) (l := tokens)
  rw [advance] at h
  split at h
  · cases h
  · rename_i t ts hd
    rw [hd] at all
    exact ⟨_, t, ts, all.symm, fun u hu => List.mem_takeWhile_imp hu, not_isLead_of_dropWhile hd, h⟩

/-- Only a class header hangs on the tokens behind its first one for whether it is found. -/
theorem outcome_phraseAt {t : Token} (h : t.isKeyword "class" = false) (ts us : List Token) :
    (preamble.phraseAt t ts).outcome = (preamble.phraseAt t us).outcome := by
  rw [phraseAt, phraseAt]
  by_cases hc : t.isComment = true
  · rw [if_pos hc, if_pos hc]
  · rw [if_neg hc, if_neg hc]
    by_cases hi : (t.isKeyword "import" || t.isKeyword "from") = true
    · rw [if_pos hi, if_pos hi]
    · rw [if_neg hi, if_neg hi, if_neg (by simp [h]), if_neg (by simp [h])]

theorem outcome_phraseAt_of_class {t : Token} (h : t.isKeyword "class" = true) (ts : List Token) :
    (preamble.phraseAt t ts).outcome =
      (Attempt.header 0 (t :: ts)).outcome.map fun _ => .phrase .classHeader body := by
  rw [phraseAt_of_class h]

/-- A class header that fails, or the tokens that no phrase of the preamble begins with. -/
theorem phraseAt_eq_error {t : Token} {ts : List Token} {fault : PhraseFault}
    (h : (preamble.phraseAt t ts).outcome = .error fault) :
    (t.isKeyword "class" = true ∧ (Attempt.header 0 (t :: ts)).outcome = .error fault) ∨
      (t.isKeyword "class" = false ∧ fault = .unexpectedStatement t.text) := by
  by_cases hc : t.isKeyword "class" = true
  · rw [outcome_phraseAt_of_class hc] at h
    refine .inl ⟨hc, ?_⟩
    cases ho : (Attempt.header 0 (t :: ts)).outcome with
    | error found =>
      rw [ho] at h
      rw [Except.error.inj h]
    | ok found =>
      rw [ho] at h
      cases h
  · refine .inr ⟨by simpa using hc, ?_⟩
    rw [phraseAt] at h
    split at h
    · cases h
    · split at h
      · cases h
      · exact (Except.error.inj h).symm

theorem head?_append_of_error {region : Region} {tokens : List Token} {fault : PhraseFault}
    (h : (region.advance tokens).outcome = .error fault) (more : List Token) :
    (tokens ++ more).head? = tokens.head? := by
  obtain ⟨lead, t, ts, he, -⟩ := exists_lead_of_error h
  have hn : tokens ≠ [] := by simp [he]
  exact List.head?_append_of_ne_nil _ hn

/-- A fault that shows in the tokens stays where it is, whatever follows. -/
theorem advance_append_of_error {tokens : List Token} {fault : PhraseFault}
    (h : (preamble.advance tokens).outcome = .error fault)
    (hf : (∃ found, fault = .unexpectedStatement found) ∨ fault = .unmatchedBracket)
    (more : List Token) : (preamble.advance (tokens ++ more)).outcome = .error fault := by
  obtain ⟨lead, t, ts, rfl, hl, ht, hp⟩ := exists_lead_of_error h
  rw [List.append_assoc, List.cons_append, advance_of_lead hl ht]
  show (preamble.phraseAt t (ts ++ more)).outcome = .error fault
  obtain ⟨hc, hh⟩ | ⟨hc, -⟩ := phraseAt_eq_error hp
  · obtain ⟨taken, rest, he, hi, hfails⟩ := Attempt.header_outcome_eq_error_iff.1 hh
    have hmore : (Attempt.header 0 (t :: (ts ++ more))).outcome = .error fault := by
      rw [← List.cons_append, he, List.append_assoc]
      refine Attempt.header_outcome_eq_error_iff.2 ⟨taken, rest ++ more, rfl, hi, ?_⟩
      generalize openAfter 0 taken = depth at hfails ⊢
      cases hfails with
      | ended | unclosed | lineBreak => simp at hf
      | unmatched hk => exact .unmatched hk
    rw [outcome_phraseAt_of_class hc, hmore]
    rfl
  · rw [outcome_phraseAt hc (ts ++ more) ts]
    exact hp

/-- A class header that has brackets open at the end is found once they are closed. -/
theorem exists_finds_append_of_unclosed {tokens : List Token}
    (h : (preamble.advance tokens).outcome = .error .unclosedBrackets) :
    ∃ more taken rest, tokens ++ more = taken ++ rest ∧
      preamble.Finds ⟨.classHeader, taken⟩ body rest := by
  obtain ⟨lead, t, ts, rfl, hl, ht, hp⟩ := exists_lead_of_error h
  obtain ⟨hc, hh⟩ | ⟨-, hf⟩ := phraseAt_eq_error hp
  · obtain ⟨taken, rest, he, hi, hfails⟩ := Attempt.header_outcome_eq_error_iff.1 hh
    obtain rfl : rest = [] := by
      generalize openAfter 0 taken = depth at hfails
      cases hfails
      rfl
    rw [List.append_nil] at he
    refine ⟨closing (openAfter 0 taken) ++ [⟨.delimiter, ":"⟩], _, _,
      advance_eq_iff.1 (advance_eq_of_outcome ?_)⟩
    rw [List.append_assoc, List.cons_append, advance_of_lead hl ht]
    show (preamble.phraseAt t (ts ++ _)).outcome = _
    rw [outcome_phraseAt_of_class hc, ← List.cons_append, he, Attempt.header_append_of_inHeader hi]
    show (Attempt.header _ _).outcome.map _ = _
    rw [Attempt.header_closing]
    rfl
  · cases hf

/-- What ends a phrase of the preamble is the next token. -/
theorem Finds.congr_head? (h : preamble.Finds p .preamble rest) (hh : other.head? = rest.head?) :
    preamble.Finds p .preamble other := by
  obtain ⟨lead, core, he, hl, ht⟩ := h
  refine ⟨lead, core, he, hl, ?_⟩
  generalize p.kind = kind at ht ⊢
  cases ht with
  | comments hc hf hr => exact .comments hc hf (by rwa [hh])
  | imports hk hu hs => exact .imports hk hu (by rwa [EndsStatement, hh])

/-- A class header is found whatever follows it. -/
theorem Finds.of_classHeader {region next : Region} (h : region.Finds p next rest)
    (hk : p.kind = .classHeader) (other : List Token) :
    region = .preamble ∧ next = .body ∧ region.Finds p next other := by
  obtain ⟨lead, core, he, hl, ht⟩ := h
  have hkind : p.kind ∉ region.kinds := by
    rw [hk]
    cases region <;> decide
  obtain ⟨-, hm⟩ | ⟨rfl, -, rfl⟩ := ht.kind_mem
  · exact absurd hm hkind
  · refine ⟨rfl, rfl, lead, core, he, hl, ?_⟩
    generalize p.kind = kind at ht ⊢
    cases ht with
    | classHeader hc hf => exact .classHeader hc hf

end Region

namespace Phrased

variable {ps : List Phrase} {rest other : List Token}

/-- Phrases of the preamble are found alike before what begins alike. -/
theorem congr_head? (h : Phrased .preamble ps .preamble rest) (hh : other.head? = rest.head?) :
    Phrased .preamble ps .preamble other := by
  refine h.of_last fun region p hp => ?_
  cases region with
  | preamble => exact hp.congr_head? hh
  | body => cases hp.next_eq_body

end Phrased

namespace Phrase

/-- Tokens do not fall into phrases exactly if some do, up to a place where no phrase of the region
begins. The error keeps all tokens from there on. -/
theorem ofTokensIn_eq_error_iff {region : Region} {tokens : List Token} {e : PhraseError} :
    ofTokensIn region tokens = .error e ↔
      ∃ ps next, Phrased region ps next e.remaining ∧
        (next.advance e.remaining).outcome = .error e.fault ∧
        tokens = ps.flatMap Phrase.tokens ++ e.remaining := by
  constructor
  · intro h
    induction region, tokens using ofTokensIn.induct with
    | case1 region tokens fault ho =>
      rw [ofTokensIn_eq, ho] at h
      obtain rfl := Except.error.inj h
      exact ⟨[], region, .nil, ho, rfl⟩
    | case2 region tokens ho =>
      rw [ofTokensIn_eq, ho] at h
      cases h
    | case3 region tokens kind next ho cut ih =>
      obtain ⟨ht, hp⟩ := Region.advance_eq_iff.1 (Region.advance_eq_of_outcome ho)
      have hr := ofTokensIn_of_finds hp
      rw [← ht, h] at hr
      cases hn : ofTokensIn next (region.advance tokens).cut.rest with
      | ok others =>
        rw [hn] at hr
        cases hr
      | error found =>
        rw [hn] at hr
        obtain rfl := Except.error.inj hr
        obtain ⟨ps, last, hps, hf, he⟩ := ih hn
        refine ⟨_ :: ps, last, .cons (by rwa [← he]) hps, hf, ?_⟩
        rw [List.flatMap_cons, List.append_assoc, ← he]
        exact ht
  · intro h
    obtain ⟨ps, next, hps, hf, rfl⟩ := h
    rw [ofTokensIn_append hps, ofTokensIn_eq, hf]
    rfl

/-- Only the preamble has faults. -/
theorem ofTokens_eq_error_iff {tokens : List Token} {e : PhraseError} :
    ofTokens tokens = .error e ↔
      ∃ ps, Phrased .preamble ps .preamble e.remaining ∧
        (Region.preamble.advance e.remaining).outcome = .error e.fault ∧
        tokens = ps.flatMap Phrase.tokens ++ e.remaining := by
  rw [ofTokens, ofTokensIn_eq_error_iff]
  constructor
  · intro h
    obtain ⟨ps, next, hps, hf, he⟩ := h
    cases next with
    | preamble => exact ⟨ps, hps, hf, he⟩
    | body =>
      obtain ⟨finding, ho⟩ := Region.exists_finding_of_body e.remaining
      cases ho.symm.trans hf
  · intro h
    obtain ⟨ps, hps, hf, he⟩ := h
    exact ⟨ps, .preamble, hps, hf, he⟩

/-- In the body all tokens fall into phrases. -/
theorem exists_ofTokensIn_body (tokens : List Token) :
    ∃ phrases, ofTokensIn .body tokens = .ok phrases := by
  cases h : ofTokensIn .body tokens with
  | ok phrases => exact ⟨phrases, rfl⟩
  | error e =>
    obtain ⟨ps, next, hps, hf, -⟩ := ofTokensIn_eq_error_iff.1 h
    obtain rfl := hps.kinds_of_body.1
    obtain ⟨finding, ho⟩ := Region.exists_finding_of_body e.remaining
    cases ho.symm.trans hf

/-- Once the class header is found, all tokens behind it fall into phrases. -/
theorem exists_ofTokens_of_classHeader {before : List Phrase} {header : Phrase}
    {rest : List Token} (hb : Phrased .preamble before .preamble (header.tokens ++ rest))
    (hh : Region.preamble.Finds header .body rest) :
    ∃ others, ofTokens (before.flatMap Phrase.tokens ++ (header.tokens ++ rest)) =
      .ok (before ++ header :: others) := by
  obtain ⟨others, ho⟩ := exists_ofTokensIn_body rest
  refine ⟨others, ?_⟩
  rw [ofTokens, ofTokensIn_append hb, ofTokensIn_of_finds hh, ho]
  rfl

/-- Phrases up to a class header stay what they are, whatever follows. -/
theorem exists_ofTokens_append_of_classHeader {tokens : List Token} {before after : List Phrase}
    {header : Phrase} (h : ofTokens tokens = .ok (before ++ header :: after))
    (hk : header.kind = .classHeader) (more : List Token) :
    ∃ others, ofTokens (tokens ++ more) = .ok (before ++ header :: others) := by
  obtain ⟨middle, next, hbefore, hheader⟩ | ⟨hr, -⟩ := exists_finds_of_ofTokensIn h
  · obtain ⟨rfl, rfl, hfinds⟩ := hheader.of_classHeader hk (after.flatMap Phrase.tokens ++ more)
    have hlead : Phrased .preamble before .preamble
        (header.tokens ++ (after.flatMap Phrase.tokens ++ more)) := by
      refine hbefore.congr_head? ?_
      have hn := hfinds.tokens_ne_nil
      rw [List.head?_append_of_ne_nil _ hn, List.head?_append_of_ne_nil _ hn]
    rw [← flatMap_tokens_of_ofTokensIn h]
    simpa using exists_ofTokens_of_classHeader hlead hfinds
  · rw [hk] at hr
    cases hr

end Phrase

/-- More tokens at the end leave the phrases up to the class header as they are, and a fault that
shows in the tokens where it is; a class header that the end cuts short inside its brackets can be
completed. The body is never at fault, wherever a walk advances in it. -/
theorem ofTokens_extended (tokens : List Token) :
    (∀ (w : Walk) (e : PhraseError), (w.advance .body).1 ≠ .error e) ∧
      (∀ more before header after,
        Phrase.ofTokens tokens = .ok (before ++ header :: after) → header.kind = .classHeader →
        ∃ others, Phrase.ofTokens (tokens ++ more) = .ok (before ++ header :: others)) ∧
      (∀ more e, Phrase.ofTokens tokens = .error e →
        (∃ found, e.fault = .unexpectedStatement found) ∨ e.fault = .unmatchedBracket →
        Phrase.ofTokens (tokens ++ more) = .error ⟨e.fault, e.remaining ++ more⟩) ∧
      ∀ e, Phrase.ofTokens tokens = .error e → e.fault = .unclosedBrackets →
        ∃ more phrases, Phrase.ofTokens (tokens ++ more) = .ok phrases := by
  refine ⟨?_, ?_, ?_, ?_⟩
  · intro w e h
    obtain ⟨finding, ho⟩ := Region.exists_finding_of_body w.ahead
    rw [Walk.advance, ho] at h
    cases h
  · intro more before header after h hk
    exact Phrase.exists_ofTokens_append_of_classHeader h hk more
  · intro more e h hf
    obtain ⟨ps, hps, hfault, rfl⟩ := Phrase.ofTokens_eq_error_iff.1 h
    have hmore := hps.congr_head? (Region.head?_append_of_error hfault more)
    refine Phrase.ofTokens_eq_error_iff.2 ⟨ps, hmore, ?_, ?_⟩
    · exact Region.advance_append_of_error hfault hf more
    · exact List.append_assoc _ _ _
  · intro e h hf
    obtain ⟨ps, hps, hfault, rfl⟩ := Phrase.ofTokens_eq_error_iff.1 h
    rw [hf] at hfault
    obtain ⟨more, taken, rest, ht, hfinds⟩ := Region.exists_finds_append_of_unclosed hfault
    have hlead := hps.congr_head? (Region.head?_append_of_error hfault more)
    rw [ht] at hlead
    obtain ⟨others, ho⟩ := Phrase.exists_ofTokens_of_classHeader hlead hfinds
    refine ⟨more, ps ++ ⟨.classHeader, taken⟩ :: others, ?_⟩
    rw [List.append_assoc, ht]
    exact ho

/-- A header that a statement follows, one that closes a bracket too many, and one that ends inside
two brackets, each behind an import. -/
theorem ofTokens_extended_headers :
    let start : List Token := [⟨.keyword, "import"⟩, ⟨.newline, "\n"⟩, ⟨.keyword, "class"⟩]
    let imports : Phrase := ⟨.imports, [⟨.keyword, "import"⟩]⟩
    let header : Phrase :=
      ⟨.classHeader, [⟨.newline, "\n"⟩, ⟨.keyword, "class"⟩, ⟨.delimiter, ":"⟩]⟩
    let statement : Phrase := ⟨.version, [⟨.identifier, "version"⟩]⟩
    let more : List Token := [⟨.delimiter, "("⟩, ⟨.newline, "\n"⟩, ⟨.comment, "#"⟩]
    let whole := start ++ [⟨.delimiter, ":"⟩, ⟨.identifier, "version"⟩]
    let unmatched := start ++ [⟨.delimiter, "]"⟩]
    let unclosed := start ++ [⟨.delimiter, "("⟩, ⟨.newline, "\n"⟩, ⟨.delimiter, "["⟩]
    Phrase.ofTokens whole = .ok [imports, header, statement] ∧
      (∃ others, Phrase.ofTokens (whole ++ more) = .ok (imports :: header :: others)) ∧
      Phrase.ofTokens unmatched = .error ⟨.unmatchedBracket, unmatched.tail⟩ ∧
      Phrase.ofTokens (unmatched ++ more) = .error ⟨.unmatchedBracket, unmatched.tail ++ more⟩ ∧
      Phrase.ofTokens unclosed = .error ⟨.unclosedBrackets, unclosed.tail⟩ ∧
      ∃ rest phrases, Phrase.ofTokens (unclosed ++ rest) = .ok phrases := by
  intro start imports header statement more whole unmatched unclosed
  have hwhole : Phrase.ofTokens whole = .ok [imports, header, statement] := by cbv
  have hunmatched : Phrase.ofTokens unmatched = .error ⟨.unmatchedBracket, unmatched.tail⟩ := by cbv
  have hunclosed : Phrase.ofTokens unclosed = .error ⟨.unclosedBrackets, unclosed.tail⟩ := by cbv
  refine ⟨hwhole, ?_, hunmatched, ?_, hunclosed, ?_⟩
  · exact (ofTokens_extended whole).2.1 more [imports] header [statement] hwhole rfl
  · exact (ofTokens_extended unmatched).2.2.1 more _ hunmatched (.inr rfl)
  · exact (ofTokens_extended unclosed).2.2.2 _ hunclosed rfl

end PackageRecipe
