import PackageRecipe.Phrase.Region
import PackageRecipe.Proofs.Phrase.Extent

/-!
Which phrase sequences tokens fall into. `Region.Takes` lists what a region takes behind the lead of
a phrase, and `Phrased` puts such phrases one after the other. Tokens are divided into a sequence
exactly if it is of this form up to blanks at the end, so no token is lost and the kinds come in the
order in which the regions allow them.
-/
namespace PackageRecipe

namespace Region

/-- The region takes these tokens for a phrase, if no lead stands before them and `rest` follows;
the recipe goes on in the region `next`. -/
inductive Takes : Region → Phrase.Kind → List Token → (next : Region) → (rest : List Token) → Prop
    where
  | comments {t : Token} {ts rest : List Token} :
      t.isComment = true → (∀ u ∈ ts, u.isFiller = true) → (∀ u ∈ rest.head?, u.isFiller = false) →
      Takes .preamble .remark (t :: ts) .preamble rest
  | imports {t : Token} {ts rest : List Token} :
      t.isKeyword "import" = true ∨ t.isKeyword "from" = true → Unbroken 0 (t :: ts) →
      EndsStatement (openAfter 0 (t :: ts)) rest → Takes .preamble .imports (t :: ts) .preamble rest
  | classHeader {t : Token} {ts rest : List Token} :
      t.isKeyword "class" = true → HeaderForm 0 (t :: ts) →
      Takes .preamble .classHeader (t :: ts) .body rest
  | remarks {t : Token} {ts rest : List Token} :
      t.isComment = true → (∀ u ∈ ts, u.isFiller = true) →
      (∀ u ∈ (t :: ts).getLast?, u.isComment = true) → commentAhead rest = false →
      Takes .body .remark (t :: ts) .body rest
  | statement {t : Token} {ts rest : List Token} :
      t.isBlank = false → t.isComment = false → Unbroken 0 (t :: ts) →
      EndsStatement (openAfter 0 (t :: ts)) rest →
      Takes .body (statementKind t) (t :: ts) .body rest

/-- The phrase is what the region finds first if `rest` follows it. -/
def Finds (region : Region) (p : Phrase) (next : Region) (rest : List Token) : Prop :=
  ∃ lead core, p.tokens = lead ++ core ∧ (∀ t ∈ lead, region.isLead t = true) ∧
    region.Takes p.kind core next rest

theorem isLead_imp_isBlank {region : Region} {t : Token} (h : region.isLead t = true) :
    t.isBlank = true := by
  cases region with
  | preamble => exact Bool.or_eq_true_iff.2 (.inl h)
  | body => exact h

theorem isLead_eq_false_of_not_isBlank {region : Region} {t : Token} (h : t.isBlank = false) :
    region.isLead t = false := by
  cases hl : region.isLead t with
  | false => rfl
  | true =>
    rw [isLead_imp_isBlank hl] at h
    cases h

variable {region next : Region} {kind : Phrase.Kind} {core rest : List Token}

/-- What a region takes begins with a token that is not blank. -/
theorem Takes.eq_cons (h : region.Takes kind core next rest) :
    ∃ t ts, core = t :: ts ∧ t.isBlank = false := by
  cases h with
  | comments hc => exact ⟨_, _, rfl, Token.not_isBlank_of_isComment hc⟩
  | imports hk =>
    rcases hk with hk | hk
    · exact ⟨_, _, rfl, Token.not_isBlank_of_isKeyword hk⟩
    · exact ⟨_, _, rfl, Token.not_isBlank_of_isKeyword hk⟩
  | classHeader hk => exact ⟨_, _, rfl, Token.not_isBlank_of_isKeyword hk⟩
  | remarks hc => exact ⟨_, _, rfl, Token.not_isBlank_of_isComment hc⟩
  | statement hb => exact ⟨_, _, rfl, hb⟩

/-- Behind `class` the preamble takes what the header reaches, found or not. -/
theorem phraseAt_of_class {t : Token} (h : t.isKeyword "class" = true) (ts : List Token) :
    preamble.phraseAt t ts = ⟨(Attempt.header 0 (t :: ts)).cut,
      (Attempt.header 0 (t :: ts)).outcome.map fun _ => .phrase .classHeader body⟩ := by
  have hi : (t.isKeyword "import" || t.isKeyword "from") = false := by
    have ht : t.text = "class" := of_decide_eq_true (Bool.and_eq_true_iff.1 h).2
    simp [Token.isKeyword, Token.spells, ht]
  rw [phraseAt, if_neg (by simp [Token.not_isComment_of_isKeyword h]), if_neg (by simp [hi]),
    if_pos h]

theorem Takes.phraseAt_eq {t : Token} {ts : List Token}
    (h : region.Takes kind (t :: ts) next rest) :
    region.phraseAt t (ts ++ rest) = ⟨⟨t :: ts, rest⟩, .ok (.phrase kind next)⟩ := by
  cases h with
  | comments hc hf hr =>
    have filler : ∀ u ∈ t :: ts, u.isFiller = true := by
      simpa [Token.isFiller, hc] using hf
    rw [phraseAt, if_pos hc, ← List.cons_append, Cut.span_append filler hr]
  | imports hk hu he =>
    have hc : t.isComment = false := hk.elim Token.not_isComment_of_isKeyword
      Token.not_isComment_of_isKeyword
    rw [phraseAt, if_neg (by simp [hc]), if_pos (by simpa using hk), ← List.cons_append,
      Cut.statement_append hu he]
  | classHeader hk hf =>
    rw [phraseAt_of_class hk, ← List.cons_append, Attempt.header_append hf]
    rfl
  | remarks hc hf hl hr =>
    have filler : ∀ u ∈ t :: ts, u.isFiller = true := by
      simpa [Token.isFiller, hc] using hf
    rw [phraseAt, if_pos hc, ← List.cons_append, Cut.remarks_append filler hl hr]
  | statement hb hc hu he =>
    rw [phraseAt, if_neg (by simp [hc]), ← List.cons_append, Cut.statement_append hu he]

theorem takes_of_phraseAt_eq {t : Token} {ts taken : List Token} (hl : region.isLead t = false)
    (h : region.phraseAt t ts = ⟨⟨taken, rest⟩, .ok (.phrase kind next)⟩) :
    region.Takes kind taken next rest := by
  have all := tokens_phraseAt t ts region
  have hne := phraseAt_taken_ne_nil hl (by rw [h])
  rw [h] at all hne
  -- what is taken begins with the token that decides the kind
  obtain ⟨us, rfl⟩ : ∃ us, taken = t :: us := by
    cases taken with
    | nil => exact absurd rfl hne
    | cons u us => exact ⟨us, by rw [(List.cons.inj all).1]⟩
  cases region with
  | preamble =>
    rw [phraseAt] at h
    split at h
    · rename_i hc
      simp only [Attempt.mk.injEq, Except.ok.injEq, Finding.phrase.injEq] at h
      obtain ⟨hs, rfl, rfl⟩ := h
      obtain ⟨-, hf, hr⟩ := Cut.span_eq_iff.1 hs
      exact .comments hc (fun u hu => hf u (List.mem_cons_of_mem t hu)) hr
    · split at h
      · rename_i hk
        simp only [Attempt.mk.injEq, Except.ok.injEq, Finding.phrase.injEq] at h
        obtain ⟨hs, rfl, rfl⟩ := h
        obtain ⟨-, hu, he⟩ := Cut.statement_eq_iff.1 hs
        exact .imports (by simpa using hk) hu he
      · split at h
        · rename_i hk
          simp only [Attempt.mk.injEq] at h
          obtain ⟨hs, ho⟩ := h
          cases hd : (Attempt.header 0 (t :: ts)).outcome with
          | error fault => simp [hd, Except.map] at ho
          | ok =>
            simp only [hd, Except.map, Except.ok.injEq, Finding.phrase.injEq] at ho
            obtain ⟨rfl, rfl⟩ := ho
            have hf := Attempt.headerForm_header hd
            rw [hs] at hf
            exact .classHeader hk hf
        · simp at h
  | body =>
    rw [phraseAt] at h
    split at h
    · rename_i hc
      simp only [Attempt.mk.injEq, Except.ok.injEq, Finding.phrase.injEq] at h
      obtain ⟨hs, rfl, rfl⟩ := h
      obtain ⟨-, hf, hl, hr⟩ := Cut.remarks_eq_iff.1 hs
      exact .remarks hc (fun u hu => hf u (List.mem_cons_of_mem t hu)) hl hr
    · rename_i hc
      simp only [Attempt.mk.injEq, Except.ok.injEq, Finding.phrase.injEq] at h
      obtain ⟨hs, rfl, rfl⟩ := h
      obtain ⟨-, hu, he⟩ := Cut.statement_eq_iff.1 hs
      exact .statement hl (by simpa using hc) hu he

theorem advance_of_lead {lead : List Token} (hl : ∀ t ∈ lead, region.isLead t = true) {t : Token}
    (ht : region.isLead t = false) (ts : List Token) :
    region.advance (lead ++ t :: ts) = (region.phraseAt t ts).prepend lead := by
  have hn : ¬ region.isLead t = true := by simp [ht]
  rw [advance, List.takeWhile_append_of_pos hl, List.dropWhile_append_of_pos hl,
    List.takeWhile_cons_of_neg hn, List.dropWhile_cons_of_neg hn, List.append_nil]

/-- The step of reading phrases, inverted: what it takes is a lead and a phrase of the region. -/
theorem advance_eq_iff {tokens taken : List Token} :
    region.advance tokens = ⟨⟨taken, rest⟩, .ok (.phrase kind next)⟩ ↔
      tokens = taken ++ rest ∧ region.Finds ⟨kind, taken⟩ next rest := by
  constructor
  · intro h
    have all := region.tokens_advance tokens
    rw [h] at all
    refine ⟨all.symm, ?_⟩
    have lead : ∀ t ∈ tokens.takeWhile region.isLead, region.isLead t = true :=
      fun t ht => List.mem_takeWhile_imp ht
    rw [advance] at h
    split at h
    · simp at h
    · rename_i t ts hd
      have ht := not_isLead_of_dropWhile hd
      cases hp : region.phraseAt t ts with
      | mk cut outcome =>
        rw [hp] at h
        simp only [Attempt.prepend, Cut.prepend, Attempt.mk.injEq, Cut.mk.injEq] at h
        obtain ⟨⟨ht', rfl⟩, rfl⟩ := h
        exact ⟨_, cut.taken, ht'.symm, lead, takes_of_phraseAt_eq ht hp⟩
  · intro h
    obtain ⟨rfl, lead, core, he, hl, hc⟩ := h
    obtain rfl : taken = lead ++ core := he
    obtain ⟨t, ts, rfl, ht⟩ := hc.eq_cons
    rw [List.append_assoc, List.cons_append, advance_of_lead hl (isLead_eq_false_of_not_isBlank ht),
      hc.phraseAt_eq]
    rfl

theorem advance_eq_of_outcome {tokens : List Token}
    (h : (region.advance tokens).outcome = .ok (.phrase kind next)) :
    region.advance tokens =
      ⟨⟨(region.advance tokens).cut.taken, (region.advance tokens).cut.rest⟩,
        .ok (.phrase kind next)⟩ := by
  rw [← h]

theorem advance_outcome_eq_finished_iff {tokens : List Token} :
    (region.advance tokens).outcome = .ok .finished ↔ ∀ t ∈ tokens, region.isLead t = true := by
  rw [advance]
  split
  · rename_i h
    simpa using List.dropWhile_eq_nil_iff.1 h
  · rename_i t ts h
    have ht := not_isLead_of_dropWhile h
    have hm : t ∈ tokens := (List.dropWhile_suffix region.isLead).subset (by simp [h])
    refine ⟨fun hf => ?_, fun hf => by simp [hf t hm] at ht⟩
    have hn : (region.phraseAt t ts).outcome ≠ .ok .finished := by
      cases region with
      | preamble =>
        rw [phraseAt]
        split
        · simp
        · split
          · simp
          · split
            · cases ho : (Attempt.header 0 (t :: ts)).outcome <;> simp [ho, Except.map]
            · simp
      | body =>
        rw [phraseAt]
        split <;> simp
    exact absurd hf hn

/-- The body finds a phrase in any tokens, or nothing but blanks. -/
theorem exists_finding_of_body (tokens : List Token) :
    ∃ finding, (body.advance tokens).outcome = .ok finding := by
  rw [advance]
  split
  · exact ⟨.finished, rfl⟩
  · rename_i t ts _
    show ∃ finding, (body.phraseAt t ts).outcome = .ok finding
    rw [phraseAt]
    split
    · exact ⟨_, rfl⟩
    · exact ⟨_, rfl⟩

/-- A phrase holds a token that is not blank. -/
theorem Finds.exists_not_isBlank {p : Phrase} (h : region.Finds p next rest) :
    ∃ t ∈ p.tokens, t.isBlank = false := by
  obtain ⟨lead, core, he, -, hc⟩ := h
  obtain ⟨t, ts, rfl, ht⟩ := hc.eq_cons
  exact ⟨t, by simp [he], ht⟩

theorem Finds.tokens_ne_nil {p : Phrase} (h : region.Finds p next rest) : p.tokens ≠ [] := by
  obtain ⟨t, ht, -⟩ := h.exists_not_isBlank
  exact List.ne_nil_of_mem ht

end Region

/-- The phrases are found one after the other from `region` on, the last before `rest`, where the
recipe goes on in the region `next`. -/
inductive Phrased : Region → List Phrase → (next : Region) → (rest : List Token) → Prop where
  | nil {region : Region} {rest : List Token} : Phrased region [] region rest
  | cons {region middle next : Region} {p : Phrase} {ps : List Phrase} {rest : List Token} :
      region.Finds p middle (ps.flatMap Phrase.tokens ++ rest) → Phrased middle ps next rest →
      Phrased region (p :: ps) next rest

namespace Phrased

variable {region next : Region} {ps qs : List Phrase} {rest : List Token}

theorem cons_iff {p : Phrase} : Phrased region (p :: ps) next rest ↔
    ∃ middle, region.Finds p middle (ps.flatMap Phrase.tokens ++ rest) ∧
      Phrased middle ps next rest := by
  constructor
  · intro h
    cases h with
    | cons hp h => exact ⟨_, hp, h⟩
  · intro h
    obtain ⟨middle, hp, h⟩ := h
    exact .cons hp h

theorem append_iff : Phrased region (ps ++ qs) next rest ↔
    ∃ middle, Phrased region ps middle (qs.flatMap Phrase.tokens ++ rest) ∧
      Phrased middle qs next rest := by
  induction ps generalizing region with
  | nil =>
    constructor
    · exact fun h => ⟨region, .nil, h⟩
    · intro h
      obtain ⟨middle, hn, h⟩ := h
      cases hn
      exact h
  | cons p ps ih =>
    rw [List.cons_append, cons_iff, List.flatMap_append, List.append_assoc]
    constructor
    · intro h
      obtain ⟨first, hp, h⟩ := h
      obtain ⟨middle, hps, hqs⟩ := ih.1 h
      exact ⟨middle, .cons hp hps, hqs⟩
    · intro h
      obtain ⟨middle, hps, hqs⟩ := h
      obtain ⟨first, hp, hps⟩ := cons_iff.1 hps
      exact ⟨first, hp, ih.2 ⟨middle, hps, hqs⟩⟩

theorem tokens_ne_nil (h : Phrased region ps next rest) : ∀ p ∈ ps, p.tokens ≠ [] := by
  induction h with
  | nil => simp
  | cons hp _ ih => simpa [hp.tokens_ne_nil] using ih

end Phrased

/-- The phrase that blanks at the end make, if there are any. -/
def trailing (blanks : List Token) : List Phrase :=
  if blanks = [] then [] else [⟨.remark, blanks⟩]

theorem flatMap_tokens_trailing (blanks : List Token) :
    (trailing blanks).flatMap Phrase.tokens = blanks := by
  unfold trailing
  split
  · rename_i h
    simp [h]
  · simp

theorem eq_of_mem_trailing {p : Phrase} {blanks : List Token} (h : p ∈ trailing blanks) :
    blanks ≠ [] ∧ p = ⟨.remark, blanks⟩ := by
  unfold trailing at h
  split at h
  · cases h
  · exact ⟨‹_›, List.mem_singleton.1 h⟩

namespace Phrase

/-- Reading, without the recursion that its termination needs. -/
theorem ofTokensIn_eq (region : Region) (tokens : List Token) :
    ofTokensIn region tokens =
      match (region.advance tokens).outcome with
      | .error fault => .error ⟨fault, tokens⟩
      | .ok .finished => .ok (if tokens = [] then [] else [⟨.remark, tokens⟩])
      | .ok (.phrase kind next) =>
        (ofTokensIn next (region.advance tokens).cut.rest).map
          (⟨kind, (region.advance tokens).cut.taken⟩ :: ·) := by
  rw [ofTokensIn]
  split <;> simp_all

theorem ofTokensIn_of_finds {region next : Region} {p : Phrase} {rest : List Token}
    (h : region.Finds p next rest) :
    ofTokensIn region (p.tokens ++ rest) = (ofTokensIn next rest).map (p :: ·) := by
  have ha := Region.advance_eq_iff.2 ⟨rfl, h⟩
  rw [ofTokensIn_eq, ha]

/-- Reading takes off phrases that are found one after the other, and goes on behind them. -/
theorem ofTokensIn_append {region next : Region} {ps : List Phrase} {rest : List Token}
    (h : Phrased region ps next rest) :
    ofTokensIn region (ps.flatMap Phrase.tokens ++ rest) =
      (ofTokensIn next rest).map (ps ++ ·) := by
  induction h with
  | @nil region rest =>
    rw [List.flatMap_nil, List.nil_append]
    cases ofTokensIn region rest <;> rfl
  | @cons region middle next p ps rest hp _ ih =>
    rw [List.flatMap_cons, List.append_assoc, ofTokensIn_of_finds hp, ih]
    cases ofTokensIn next rest <;> rfl

theorem ofTokensIn_of_isLead {region : Region} {blanks : List Token}
    (h : ∀ t ∈ blanks, region.isLead t = true) :
    ofTokensIn region blanks = .ok (trailing blanks) := by
  have hf := Region.advance_outcome_eq_finished_iff.2 h
  rw [ofTokensIn_eq, hf]
  rfl

/-- Tokens fall into phrases exactly if these are found one after the other, up to blanks at the
end, which make a phrase of their own. -/
theorem ofTokensIn_eq_ok_iff {region : Region} {tokens : List Token} {phrases : List Phrase} :
    ofTokensIn region tokens = .ok phrases ↔
      ∃ ps next blanks, Phrased region ps next blanks ∧ (∀ t ∈ blanks, next.isLead t = true) ∧
        tokens = ps.flatMap Phrase.tokens ++ blanks ∧ phrases = ps ++ trailing blanks := by
  constructor
  · intro h
    induction region, tokens using ofTokensIn.induct generalizing phrases with
    | case1 region tokens fault ho =>
      rw [ofTokensIn_eq, ho] at h
      cases h
    | case2 region tokens ho =>
      have hl := Region.advance_outcome_eq_finished_iff.1 ho
      rw [ofTokensIn_of_isLead hl] at h
      obtain rfl := Except.ok.inj h
      exact ⟨[], region, tokens, .nil, hl, rfl, rfl⟩
    | case3 region tokens kind next ho cut =>
      rename_i ih
      obtain ⟨ht, hp⟩ := Region.advance_eq_iff.1 (Region.advance_eq_of_outcome ho)
      have hr := ofTokensIn_of_finds hp
      rw [← ht, h] at hr
      cases hn : ofTokensIn next (region.advance tokens).cut.rest with
      | error e => simp [hn, Except.map] at hr
      | ok others =>
        rw [hn] at hr
        obtain rfl : phrases = ⟨kind, (region.advance tokens).cut.taken⟩ :: others :=
          Except.ok.inj hr
        obtain ⟨ps, last, blanks, hps, hb, he, rfl⟩ := ih hn
        refine ⟨_ :: ps, last, blanks, .cons (by rwa [← he]) hps, hb, ?_, rfl⟩
        rw [List.flatMap_cons, List.append_assoc, ← he]
        exact ht
  · intro h
    obtain ⟨ps, next, blanks, hps, hb, rfl, rfl⟩ := h
    rw [ofTokensIn_append hps, ofTokensIn_of_isLead hb]
    rfl

/-- Phrases hold all tokens in order. -/
theorem flatMap_tokens_of_ofTokensIn {region : Region} {tokens : List Token}
    {phrases : List Phrase} (h : ofTokensIn region tokens = .ok phrases) :
    phrases.flatMap Phrase.tokens = tokens := by
  obtain ⟨ps, next, blanks, -, -, rfl, rfl⟩ := ofTokensIn_eq_ok_iff.1 h
  rw [List.flatMap_append, flatMap_tokens_trailing]

/-- Every phrase is found where those before it end, unless it is the blanks at the end. -/
theorem exists_finds_of_ofTokensIn {region : Region} {tokens : List Token}
    {before after : List Phrase} {p : Phrase}
    (h : ofTokensIn region tokens = .ok (before ++ p :: after)) :
    (∃ middle next, Phrased region before middle (p.tokens ++ after.flatMap Phrase.tokens) ∧
        middle.Finds p next (after.flatMap Phrase.tokens)) ∨
      (p.kind = .remark ∧ ∀ t ∈ p.tokens, t.isBlank = true) := by
  obtain ⟨ps, last, blanks, hps, hb, -, he⟩ := ofTokensIn_eq_ok_iff.1 h
  have blank : p ∈ trailing blanks → p.kind = .remark ∧ ∀ t ∈ p.tokens, t.isBlank = true := by
    intro hp
    obtain ⟨-, rfl⟩ := eq_of_mem_trailing hp
    exact ⟨rfl, fun t ht => Region.isLead_imp_isBlank (hb t ht)⟩
  obtain ⟨between, rfl, ht⟩ | ⟨between, -, ht⟩ := List.append_eq_append_iff.1 he
  · cases between with
    | nil => exact .inr (blank (by simp [show trailing blanks = p :: after from ht.symm]))
    | cons q found =>
      obtain ⟨rfl, hafter⟩ : p = q ∧ after = found ++ trailing blanks := List.cons.inj ht
      obtain ⟨middle, hbefore, hfrom⟩ := Phrased.append_iff.1 hps
      obtain ⟨next, hfinds, -⟩ := Phrased.cons_iff.1 hfrom
      rw [List.flatMap_cons, List.append_assoc] at hbefore
      rw [hafter, List.flatMap_append, flatMap_tokens_trailing]
      exact .inl ⟨middle, next, hbefore, hfinds⟩
  · exact .inr (blank (by simp [ht]))

end Phrase

/-- The kinds of the phrases that stay in a region. -/
def Region.kinds : Region → List Phrase.Kind
  | preamble => [.remark, .imports]
  | body => [.remark, .homepage, .location, .version, .dependsOn, .other]

theorem statementKind_mem (t : Token) : statementKind t ∈ Region.body.kinds := by
  unfold statementKind
  split_ifs <;> decide

theorem Region.Takes.kind_mem {region next : Region} {kind : Phrase.Kind} {core rest : List Token}
    (h : region.Takes kind core next rest) :
    (next = region ∧ kind ∈ region.kinds) ∨
      (region = .preamble ∧ kind = .classHeader ∧ next = .body) := by
  cases h with
  | comments => exact .inl ⟨rfl, by decide⟩
  | imports => exact .inl ⟨rfl, by decide⟩
  | classHeader => exact .inr ⟨rfl, rfl, rfl⟩
  | remarks => exact .inl ⟨rfl, by decide⟩
  | statement => exact .inl ⟨rfl, statementKind_mem _⟩

namespace Phrased

variable {next : Region} {ps : List Phrase} {rest : List Token}

theorem kinds_of_body (h : Phrased .body ps next rest) :
    next = .body ∧ ∀ p ∈ ps, p.kind ∈ Region.body.kinds := by
  induction ps with
  | nil =>
    cases h
    exact ⟨rfl, nofun⟩
  | cons p ps ih =>
    obtain ⟨middle, ⟨lead, core, -, -, hc⟩, hps⟩ := cons_iff.1 h
    obtain ⟨rfl, hk⟩ | ⟨hr, -⟩ := hc.kind_mem
    · obtain ⟨rfl, hks⟩ := ih hps
      exact ⟨rfl, List.forall_mem_cons.2 ⟨hk, hks⟩⟩
    · cases hr

/-- Only a class header leaves the preamble, and nothing leaves the body. -/
theorem kinds_of_preamble (h : Phrased .preamble ps next rest) :
    (next = .preamble ∧ ∀ p ∈ ps, p.kind ∈ Region.preamble.kinds) ∨
      (next = .body ∧ ∃ before header after, ps = before ++ header :: after ∧
        (∀ p ∈ before, p.kind ∈ Region.preamble.kinds) ∧ header.kind = .classHeader ∧
        ∀ p ∈ after, p.kind ∈ Region.body.kinds) := by
  induction ps with
  | nil =>
    cases h
    exact .inl ⟨rfl, nofun⟩
  | cons p ps ih =>
    obtain ⟨middle, ⟨lead, core, -, -, hc⟩, hps⟩ := cons_iff.1 h
    obtain ⟨rfl, hk⟩ | ⟨-, hk, rfl⟩ := hc.kind_mem
    · obtain ⟨hn, hks⟩ | ⟨hn, before, header, after, rfl, hb, hh, ha⟩ := ih hps
      · exact .inl ⟨hn, List.forall_mem_cons.2 ⟨hk, hks⟩⟩
      · exact .inr ⟨hn, p :: before, header, after, rfl, List.forall_mem_cons.2 ⟨hk, hb⟩, hh, ha⟩
    · obtain ⟨hn, ha⟩ := hps.kinds_of_body
      exact .inr ⟨hn, [], p, ps, rfl, nofun, hk, ha⟩

end Phrased

theorem forall_mem_trailing (region : Region) (blanks : List Token) :
    ∀ p ∈ trailing blanks, p.kind ∈ region.kinds ∧ p.tokens ≠ [] := by
  intro p hp
  obtain ⟨hn, rfl⟩ := eq_of_mem_trailing hp
  refine ⟨?_, hn⟩
  show Phrase.Kind.remark ∈ region.kinds
  cases region <;> decide

/-- Phrases hold all tokens in order, none is empty, and their kinds come in the order of the
regions: comments and imports, and after at most one class header the statements of the body. -/
theorem ofTokens_lossless {tokens : List Token} {phrases : List Phrase}
    (h : Phrase.ofTokens tokens = .ok phrases) :
    phrases.flatMap Phrase.tokens = tokens ∧ (∀ p ∈ phrases, p.tokens ≠ []) ∧
      ((∀ p ∈ phrases, p.kind ∈ Region.preamble.kinds) ∨
        ∃ before header after, phrases = before ++ header :: after ∧
          (∀ p ∈ before, p.kind ∈ Region.preamble.kinds) ∧ header.kind = .classHeader ∧
          ∀ p ∈ after, p.kind ∈ Region.body.kinds) := by
  refine ⟨Phrase.flatMap_tokens_of_ofTokensIn h, ?_⟩
  obtain ⟨ps, next, blanks, hps, -, rfl, rfl⟩ := Phrase.ofTokensIn_eq_ok_iff.1 h
  refine ⟨?_, ?_⟩
  · exact List.forall_mem_append.2
      ⟨hps.tokens_ne_nil, fun p hp => (forall_mem_trailing .body blanks p hp).2⟩
  · obtain ⟨-, hk⟩ | ⟨-, before, header, after, rfl, hb, hh, ha⟩ := hps.kinds_of_preamble
    · exact .inl (List.forall_mem_append.2
        ⟨hk, fun p hp => (forall_mem_trailing .preamble blanks p hp).1⟩)
    · refine .inr ⟨before, header, after ++ trailing blanks, by simp, hb, hh, ?_⟩
      exact List.forall_mem_append.2 ⟨ha, fun p hp => (forall_mem_trailing .body blanks p hp).1⟩

/-- A comment, a header, a statement with a line break inside its brackets, and blanks. -/
theorem ofTokens_lossless_bracketed :
    let tokens : List Token := [⟨.comment, "#"⟩, ⟨.newline, "\n"⟩, ⟨.keyword, "class"⟩,
      ⟨.delimiter, ":"⟩, ⟨.identifier, "version"⟩, ⟨.delimiter, "("⟩, ⟨.newline, "\n"⟩,
      ⟨.delimiter, ")"⟩, ⟨.newline, "\n"⟩]
    let phrases : List Phrase := [⟨.remark, [⟨.comment, "#"⟩, ⟨.newline, "\n"⟩]⟩,
      ⟨.classHeader, [⟨.keyword, "class"⟩, ⟨.delimiter, ":"⟩]⟩,
      ⟨.version, [⟨.identifier, "version"⟩, ⟨.delimiter, "("⟩, ⟨.newline, "\n"⟩,
        ⟨.delimiter, ")"⟩]⟩, ⟨.remark, [⟨.newline, "\n"⟩]⟩]
    phrases.flatMap Phrase.tokens = tokens ∧ (∀ p ∈ phrases, p.tokens ≠ []) ∧
      ((∀ p ∈ phrases, p.kind ∈ Region.preamble.kinds) ∨
        ∃ before header after, phrases = before ++ header :: after ∧
          (∀ p ∈ before, p.kind ∈ Region.preamble.kinds) ∧ header.kind = .classHeader ∧
          ∀ p ∈ after, p.kind ∈ Region.body.kinds) :=
  ofTokens_lossless (by cbv)

end PackageRecipe
