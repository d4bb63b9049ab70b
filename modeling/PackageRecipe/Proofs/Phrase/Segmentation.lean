import PackageRecipe.Proofs.Phrase.Remainder

/-!
Where statements and comment blocks begin and end among any tokens, also where brackets do not
match. A statement begins with the first token that may not stand before it, which decides its kind,
and goes on to the first line break outside brackets; a comment block of the body reaches from one
comment to the last that only blanks and comments part from it.
-/
namespace PackageRecipe

/-- A line break of a statement stands inside its brackets. -/
theorem Unbroken.openAfter_ne_zero {depth : Nat} {ts us : List Token} {t : Token}
    (h : Unbroken depth (ts ++ t :: us)) (hb : t.isBreak = true) : openAfter depth ts ≠ 0 := by
  induction ts generalizing depth with
  | nil => exact h.1 hb
  | cons u ts ih => exact ih h.2

/-- The kinds of the statements of the body. -/
def Phrase.statementKinds : List Phrase.Kind := [.homepage, .location, .version, .dependsOn, .other]

/-- The token that the statements of a kind begin with. -/
def Phrase.Kind.OpensWith : Phrase.Kind → Token → Prop
  | .imports, t => t.kind = .keyword ∧ t.text ∈ ["import", "from"]
  | .homepage, t => t.kind = .identifier ∧ t.text = "homepage"
  | .location, t => t.kind = .identifier ∧ t.text ∈ ["url", "git", "svn", "hg", "cvs", "urls"]
  | .version, t => t.kind = .identifier ∧ t.text = "version"
  | .dependsOn, t => t.kind = .identifier ∧ t.text = "depends_on"
  | .other, t => t.kind = .identifier →
      t.text ∉ ["homepage", "url", "git", "svn", "hg", "cvs", "urls", "version", "depends_on"]
  | .remark, _ => False
  | .classHeader, _ => False

theorem statementKind_eq_iff {t : Token} {kind : Phrase.Kind} (hk : kind ∈ Phrase.statementKinds) :
    statementKind t = kind ↔ kind.OpensWith t := by
  unfold statementKind
  split_ifs with hi hh hv hd hl
  all_goals
    cases kind <;> simp_all [Phrase.statementKinds, Phrase.Kind.OpensWith, locationNames]

/-- Behind `lead` a statement consists of `first` and `more`, before `rest`. Brackets are counted
from its beginning, and a closing bracket with none open does not count. -/
structure IsStatement (isLead : Token → Bool) (lead : List Token) (first : Token)
    (more rest : List Token) : Prop where
  lead : ∀ t ∈ lead, isLead t = true
  first_lead : isLead first = false
  first_comment : first.isComment = false
  /-- No line break in it stands outside brackets. -/
  unbroken : ∀ before t after, first :: more = before ++ t :: after → t.isBreak = true →
    openAfter 0 before ≠ 0
  /-- It reaches to the end, or a line break follows it, outside brackets. -/
  ends : ∀ t ∈ rest.head?, t.isBreak = true ∧ openAfter 0 (first :: more) = 0

/-- Behind `lead` a comment block of the body consists of `core`, before `rest`. -/
structure IsCommentBlock (lead core rest : List Token) : Prop where
  lead : ∀ t ∈ lead, t.isBlank = true
  first : ∃ t ∈ core.head?, t.isComment = true
  between : ∀ t ∈ core, t.isComment = true ∨ t.isBlank = true
  last : ∃ t ∈ core.getLast?, t.isComment = true
  /-- No other comment could be added to it. -/
  next : ∀ t ∈ rest.find? fun t => !t.isBlank, t.isComment = false

namespace Region

variable {region next : Region} {p : Phrase} {rest : List Token}

theorem isStatement_of_unbroken {isLead : Token → Bool} {lead more : List Token} {first : Token}
    (hl : ∀ t ∈ lead, isLead t = true) (hf : isLead first = false) (hc : first.isComment = false)
    (hu : Unbroken 0 (first :: more)) (he : EndsStatement (openAfter 0 (first :: more)) rest) :
    IsStatement isLead lead first more rest where
  lead := hl
  first_lead := hf
  first_comment := hc
  unbroken before t after h hb := by
    rw [h] at hu
    exact hu.openAfter_ne_zero hb
  ends := he

theorem Finds.isStatement_of_imports (h : region.Finds p next rest) (hk : p.kind = .imports) :
    ∃ lead first more, p.tokens = lead ++ first :: more ∧
      IsStatement Token.isBreak lead first more rest ∧ Phrase.Kind.imports.OpensWith first := by
  obtain ⟨lead, core, ht, hl, hc⟩ := h
  generalize p.kind = kind at hc hk
  cases hc with
  | @imports t ts _ hi hu he =>
    obtain ⟨text, hi, hm⟩ : ∃ text, t.isKeyword text = true ∧ text ∈ ["import", "from"] :=
      hi.elim (fun hi => ⟨_, hi, by decide⟩) fun hi => ⟨_, hi, by decide⟩
    have hf : Region.preamble.isLead t = false :=
      isLead_eq_false_of_not_isBlank (Token.not_isBlank_of_isKeyword hi)
    have hc : t.isComment = false := Token.not_isComment_of_isKeyword hi
    obtain ⟨hkind, rfl⟩ : t.kind = .keyword ∧ t.text = text := by
      simpa [Token.isKeyword, Token.spells] using hi
    exact ⟨lead, t, ts, ht, isStatement_of_unbroken hl hf hc hu he, hkind, hm⟩
  | @statement t =>
    -- no first token makes a statement of the body an import
    have hm := statementKind_mem t
    rw [hk] at hm
    exact absurd hm (by decide)
  | comments | classHeader | remarks => cases hk

theorem Finds.isStatement_of_body (h : region.Finds p next rest)
    (hk : p.kind ∈ Phrase.statementKinds) :
    ∃ lead first more, p.tokens = lead ++ first :: more ∧
      IsStatement Token.isBlank lead first more rest ∧ statementKind first = p.kind := by
  obtain ⟨lead, core, ht, hl, hc⟩ := h
  generalize p.kind = kind at hc hk ⊢
  cases hc with
  | @statement t ts _ hb hc hu he =>
    exact ⟨lead, t, ts, ht, isStatement_of_unbroken hl hb hc hu he, rfl⟩
  | comments | imports | classHeader | remarks => exact absurd hk (by decide)

theorem Finds.isCommentBlock (h : body.Finds p next rest) (hk : p.kind = .remark) :
    ∃ lead core, p.tokens = lead ++ core ∧ IsCommentBlock lead core rest := by
  obtain ⟨lead, core, ht, hl, hc⟩ := h
  rw [hk] at hc
  obtain ⟨-, t, ts, rfl, ⟨-, hct, hf, hlast, hr⟩ | ⟨hs, -⟩⟩ := hc.body_cases
  · have hfiller : ∀ u ∈ t :: ts, u.isFiller = true :=
      List.forall_mem_cons.2 ⟨Token.isFiller_of_isComment hct, hf⟩
    obtain ⟨last, hsome⟩ := Option.isSome_iff_exists.1
      (List.getLast?_isSome.2 (List.cons_ne_nil t ts))
    refine ⟨lead, t :: ts, ht, hl, ⟨t, rfl, hct⟩, ?_, ⟨last, hsome, hlast last hsome⟩, ?_⟩
    · intro u hu
      exact Or.symm (by simpa [Token.isFiller] using hfiller u hu)
    · intro u hu
      rw [List.find?_not_eq_head?_dropWhile] at hu
      rw [commentAhead, hu] at hr
      exact hr
  · exact absurd hs.symm (statementKind_ne_remark t)

end Region

/-- A class header among the phrases leaves the preamble. -/
theorem Phrased.eq_body_of_classHeader {ps : List Phrase} {next : Region} {rest : List Token}
    (h : Phrased .preamble ps next rest) (hc : ∃ p ∈ ps, p.kind = .classHeader) : next = .body := by
  obtain ⟨hn, hk⟩ | ⟨hn, -⟩ := h.kinds_of_preamble
  · obtain ⟨p, hp, hkind⟩ := hc
    have hm := hk p hp
    rw [hkind] at hm
    exact absurd hm (by decide)
  · exact hn

/-- Where a phrase begins and ends among the tokens of its recipe. An import has line breaks before
it and a statement of the body has blanks; its first token decides its kind; no line break in it
stands outside brackets, and it reaches to the end or to a line break outside brackets. A comment
block of the body has blanks before it, begins and ends with a comment, holds only comments and
blanks, and the next token behind it that is not blank is no comment. -/
theorem ofTokens_segmented {tokens : List Token} (before : List Phrase) (p : Phrase)
    (after : List Phrase) (h : Phrase.ofTokens tokens = .ok (before ++ p :: after)) :
    let rest := after.flatMap Phrase.tokens
    tokens = before.flatMap Phrase.tokens ++ (p.tokens ++ rest) ∧
      (p.kind = .imports → ∃ lead first more, p.tokens = lead ++ first :: more ∧
        IsStatement Token.isBreak lead first more rest ∧
        Phrase.Kind.imports.OpensWith first) ∧
      (p.kind ∈ Phrase.statementKinds → ∃ lead first more, p.tokens = lead ++ first :: more ∧
        IsStatement Token.isBlank lead first more rest ∧
        ∀ kind ∈ Phrase.statementKinds, p.kind = kind ↔ kind.OpensWith first) ∧
      ((∃ header ∈ before, header.kind = .classHeader) → p.kind = .remark →
        (∃ t ∈ p.tokens, t.isComment = true) → ∃ lead core, p.tokens = lead ++ core ∧
          IsCommentBlock lead core rest) := by
  intro rest
  have hall : tokens = before.flatMap Phrase.tokens ++ (p.tokens ++ rest) := by
    rw [← Phrase.flatMap_tokens_of_ofTokensIn h, List.flatMap_append, List.flatMap_cons]
  refine ⟨hall, ?_⟩
  obtain ⟨middle, next, hbefore, hfinds⟩ | ⟨hk, hb⟩ := Phrase.exists_finds_of_ofTokensIn h
  · refine ⟨hfinds.isStatement_of_imports, fun hk => ?_, fun hc hk _ => ?_⟩
    · obtain ⟨lead, first, more, ht, hs, hkind⟩ := hfinds.isStatement_of_body hk
      refine ⟨lead, first, more, ht, hs, fun kind hm => ?_⟩
      rw [← hkind, statementKind_eq_iff hm]
    · obtain rfl := hbefore.eq_body_of_classHeader hc
      exact hfinds.isCommentBlock hk
  · -- the blanks at the end are neither a statement nor a comment block
    rw [hk]
    refine ⟨nofun, fun hm => absurd hm (by decide), fun _ _ hc => ?_⟩
    obtain ⟨t, ht, hc⟩ := hc
    rw [Token.not_isComment_of_isBlank (hb t ht)] at hc
    cases hc

/-- A call with a closing bracket that nothing opened and with a line break and a comment in its
brackets, behind a comment block of two lines. -/
theorem ofTokens_segmented_brackets :
    let imports : Phrase := ⟨.imports, [⟨.newline, "\n"⟩, ⟨.keyword, "from"⟩]⟩
    let header : Phrase :=
      ⟨.classHeader, [⟨.newline, "\n"⟩, ⟨.keyword, "class"⟩, ⟨.delimiter, ":"⟩]⟩
    let remark : Phrase := ⟨.remark, [⟨.whitespace, " "⟩, ⟨.comment, "#"⟩, ⟨.newline, "\n"⟩,
      ⟨.whitespace, " "⟩, ⟨.comment, "#"⟩]⟩
    let call : Phrase := ⟨.dependsOn, [⟨.newline, "\n"⟩, ⟨.identifier, "depends_on"⟩,
      ⟨.delimiter, "]"⟩, ⟨.delimiter, "("⟩, ⟨.newline, "\n"⟩, ⟨.comment, "#"⟩,
      ⟨.delimiter, "\x7d"⟩]⟩
    let blank : Phrase := ⟨.remark, [⟨.newline, "\n"⟩, ⟨.whitespace, " "⟩]⟩
    let phrases := [imports, header, remark, call, blank]
    Phrase.ofTokens (phrases.flatMap Phrase.tokens) = .ok phrases ∧
      (∃ lead first more, imports.tokens = lead ++ first :: more ∧
        IsStatement Token.isBreak lead first more
          (header.tokens ++ remark.tokens ++ call.tokens ++ blank.tokens) ∧
        Phrase.Kind.imports.OpensWith first) ∧
      (∃ lead core, remark.tokens = lead ++ core ∧
        IsCommentBlock lead core (call.tokens ++ blank.tokens)) ∧
      ∃ lead first more, call.tokens = lead ++ first :: more ∧
        IsStatement Token.isBlank lead first more blank.tokens ∧
        Phrase.Kind.dependsOn.OpensWith first := by
  intro imports header remark call blank phrases
  have h : Phrase.ofTokens (phrases.flatMap Phrase.tokens) = .ok phrases := by cbv
  have first := ofTokens_segmented [] imports [header, remark, call, blank] h
  have block := ofTokens_segmented [imports, header] remark [call, blank] h
  have last := ofTokens_segmented [imports, header, remark] call [blank] h
  refine ⟨h, first.2.1 rfl, ?_, ?_⟩
  · exact block.2.2.2 ⟨header, by decide, rfl⟩ rfl ⟨⟨.comment, "#"⟩, by decide, rfl⟩
  · obtain ⟨lead, t, more, ht, hs, hk⟩ := last.2.2.1 (by decide)
    exact ⟨lead, t, more, ht, hs, (hk .dependsOn (by decide)).1 rfl⟩

end PackageRecipe
