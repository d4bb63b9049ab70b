import PackageRecipe.Proofs.Phrase.Seam
import PackageRecipe.Proofs.Phrase.Start
import PackageRecipe.Proofs.Recipe.Partition
import PackageRecipe.Proofs.Token.Splice

/-!
A recipe without its declarations. Header and footer, put together, are the source without the
calls, and text that was never adjacent meets in it: comment blocks merge, and a line that is
continued over a carriage return may take in a line feed and with it the statement behind. No new
statement starts where the text is joined, so nothing is declared any more, and nothing fails.
-/
namespace PackageRecipe

open Lexeme

namespace Place

/-- The two spellings of a continued line are alike to a scan. -/
theorem heads_continuedWhole (place : Place) (ts us : List Token) :
    place.heads (ts ++ continuedWhole :: us) = place.heads (ts ++ [continued] ++ us) := by
  have hc : ∀ place : Place,
      place.heads (continuedWhole :: us) = place.heads (continued :: us) := by
    intro place
    cases place with
    | outside => rfl
    | inside depth => rfl
  rw [List.append_assoc, List.singleton_append, heads_append, heads_append place, hc]

theorem heads_outside_append {ts : List Token} (h : ∀ t ∈ ts, t.isFiller = true)
    (us : List Token) : outside.heads (ts ++ us) = outside.heads us := by
  obtain ⟨hheads, hafter⟩ := outside_of_isFiller h
  rw [heads_append, hheads, hafter, List.nil_append]

end Place

/-- Behind a phrase no more starts than between statements. -/
theorem Region.Finds.heads_after_subset {p : Phrase} {next : Region} {rest : List Token}
    (h : body.Finds p next rest) (hr : rest ≠ []) (other : List Token) :
    (Place.outside.after p.tokens).heads other ⊆ Place.outside.heads other := by
  obtain ⟨-, ho | ⟨depth, hi, hs⟩⟩ := h.heads
  · rw [ho]
    exact List.Subset.refl _
  · obtain ⟨t, ts, rfl⟩ := List.exists_cons_of_ne_nil hr
    obtain rfl : depth = 0 := (hs t rfl).2
    rw [hi]
    exact (Place.heads_inside_suffix other).subset

/-- A phrase and a text that comes to stand behind it: no statement starts in what they are read as
that starts in neither. -/
theorem Region.Finds.exists_joined {p : Phrase} {rest us : List Token}
    (h : body.Finds p .body rest) (hr : rest ≠ []) (hl : Lexed (p.tokens ++ rest) [])
    (hu : Lexed us []) (hb : ∀ c ∈ (sourceText us).toList.head?, isLineBreak c = true) :
    ∃ vs, sourceText vs = sourceText (p.tokens ++ us) ∧ Lexed vs [] ∧
      Place.outside.heads vs ⊆ Place.outside.heads p.tokens ++ Place.outside.heads us := by
  obtain ⟨hp, hrest⟩ := lexed_append.1 hl
  have joined : ∀ ws, Place.outside.heads ws = Place.outside.heads us →
      Place.outside.heads (p.tokens ++ ws) ⊆
        Place.outside.heads p.tokens ++ Place.outside.heads us := by
    intro ws hws
    rw [Place.heads_append, ← hws]
    exact List.append_subset.2 ⟨List.subset_append_left _ _,
      List.Subset.trans (h.heads_after_subset hr ws) (List.subset_append_right _ _)⟩
  obtain ⟨t, ts, rfl⟩ := List.exists_cons_of_ne_nil hr
  obtain ⟨c, cs, hc⟩ := List.exists_cons_of_ne_nil hrest.1.text_ne_nil
  have hbreak := isLineBreak_head?_sourceText hrest.exists_endsBefore
    (h.isBreak_head? hl.isChain_comment) c (by rw [hrest.head?_sourceText, hc]; rfl)
  rw [sourceText_cons, String.toList_append, hc] at hp
  obtain hs | ⟨before, b, bs, vs, hbefore, rfl, hbb, htext, hs, hvs⟩ := hp.splice hbreak hu hb
  · exact ⟨p.tokens ++ us, rfl, hs, joined us rfl⟩
  · refine ⟨_, htext, hs, ?_⟩
    rw [Place.heads_continuedWhole, ← hbefore]
    apply joined
    -- the line breaks that are left of the first start nothing, nor did the first
    have hvf : ∀ v ∈ vs, v.isFiller = true := by
      rcases hvs with rfl | ⟨v, rfl, hv⟩
      · exact nofun
      · simpa using Token.isFiller_of_isBreak hv
    have hbf : ∀ t ∈ [b], t.isFiller = true := by simpa using Token.isFiller_of_isBreak hbb
    rw [Place.heads_outside_append hvf]
    exact (Place.heads_outside_append hbf bs).symm

/-- A colon at the end of a text may come to stand before any line break. -/
theorem Lexed.colon {ts : List Token} {rest other : List Char}
    (h : Lexed (ts ++ [⟨.delimiter, ":"⟩]) rest)
    (hh : ∀ c ∈ other.head?, isLineBreak c = true ∨ rest.head? = some c) :
    Lexed (ts ++ [⟨.delimiter, ":"⟩]) other := by
  by_cases hb : ∃ c ∈ other.head?, isLineBreak c = true
  · obtain ⟨c, hc, hb⟩ := hb
    obtain ⟨cs, rfl⟩ := List.head?_eq_some_iff.1 hc
    refine lexed_append.2 ⟨(lexed_append.1 h).1.of_head? fun d hd => hd, ?_, trivial⟩
    exact Token.endsBefore_colon_of_lineBreak hb cs
  · refine h.of_head? fun c hc => ?_
    obtain hl | hl := hh c hc
    · exact absurd ⟨c, hc, hl⟩ hb
    · exact hl

namespace Phrased

variable {region : Region} {ps : List Phrase} {rest blanks : List Token}

/-- Phrases that lead into the body are those up to the class header, which hang on nothing behind
its colon, and phrases of the body. -/
theorem exists_header (h : Phrased .preamble ps .body rest) :
    ∃ before after, ps = before ++ after ∧ Phrased .body after .body rest ∧
      (∀ p ∈ before, p.isText = true) ∧ (∀ other, Phrased .preamble before .body other) ∧
      ∃ ts, before.flatMap Phrase.tokens = ts ++ [⟨.delimiter, ":"⟩] := by
  induction ps with
  | nil => cases h
  | cons p ps ih =>
    obtain ⟨middle, hp, hps⟩ := cons_iff.1 h
    have htext : p.isText = true := by
      by_contra hf
      obtain ⟨call, hk⟩ := Phrase.isText_eq_false_iff.1 (by simpa using hf)
      obtain ⟨kind, tokens⟩ := p
      obtain rfl : kind = call.kind := hk
      cases (Region.finds_call_iff.1 hp).1
    cases middle with
    | body =>
      obtain ⟨lead, core, ht, hl, hk⟩ := hp
      refine ⟨[p], ps, rfl, hps, by simpa using htext, fun other => ?_, ?_⟩
      · refine .cons ⟨lead, core, ht, hl, ?_⟩ .nil
        generalize p.kind = kind at hk ⊢
        cases hk with
        | classHeader hc hf => exact .classHeader hc hf
      · generalize p.kind = kind at hk
        cases hk with
        | classHeader hc hf =>
          obtain ⟨us, t, hus, hd⟩ := hf.exists_colon
          obtain rfl : t = ⟨.delimiter, ":"⟩ := by
            obtain ⟨kind, text⟩ := t
            simpa [Token.isDelimiter, Token.spells] using hd
          exact ⟨lead ++ us, by simp [ht, hus]⟩
    | preamble =>
      obtain ⟨before, after, rfl, hafter, hb, hother, ts, hcolon⟩ := ih hps
      refine ⟨p :: before, after, rfl, hafter, List.forall_mem_cons.2 ⟨htext, hb⟩, ?_, ?_⟩
      · intro other
        have hne : before ≠ [] := by
          rintro rfl
          cases hother other
        obtain ⟨t, ht, hn⟩ := (hother other).exists_not_isBlank hne
        refine .cons (hp.congr_rest ?_ ?_) (hother other)
        · rw [List.flatMap_append, List.append_assoc,
            List.head?_append_of_ne_nil _ (List.ne_nil_of_mem ht),
            List.head?_append_of_ne_nil _ (List.ne_nil_of_mem ht)]
        · rw [List.flatMap_append, List.append_assoc, commentAhead_append ⟨t, ht, hn⟩,
            commentAhead_append ⟨t, ht, hn⟩]
      · exact ⟨p.tokens ++ ts, by rw [List.flatMap_cons, hcolon, List.append_assoc]⟩

/-- The first character of what is left of the body when phrases are taken out of it. -/
theorem isLineBreak_head?_filter (h : Phrased .body ps .body blanks)
    (hl : Lexed (ps.flatMap Phrase.tokens ++ blanks) [])
    (hb : ∀ t ∈ (ps.flatMap Phrase.tokens ++ blanks).head?, t.isBreak = true)
    (f : Phrase → Bool) : ∀ c ∈ (sourceText
      ((ps.filter f).flatMap Phrase.tokens ++ blanks)).toList.head?, isLineBreak c = true := by
  refine isLineBreak_head?_sourceText (fun t ht => hl.exists_endsBefore t ?_)
    (h.isBreak_head?_filter hl.isChain_comment hb f)
  rcases List.mem_append.1 ht with ht | ht
  · obtain ⟨p, hp, ht⟩ := List.mem_flatMap.1 ht
    exact List.mem_append_left _ (List.mem_flatMap.2 ⟨p, (List.mem_filter.1 hp).1, ht⟩)
  · exact List.mem_append_right _ ht

/-- Without some of its phrases the body begins as before or with a line break. -/
theorem head?_filter (h : Phrased .body ps .body blanks)
    (hl : Lexed (ps.flatMap Phrase.tokens ++ blanks) []) (f : Phrase → Bool) :
    ∀ c ∈ (sourceText ((ps.filter f).flatMap Phrase.tokens ++ blanks)).toList.head?,
      isLineBreak c = true ∨
        (sourceText (ps.flatMap Phrase.tokens ++ blanks)).toList.head? = some c := by
  intro c hc
  cases ps with
  | nil => exact .inr hc
  | cons p ps =>
    obtain ⟨middle, hp, hps⟩ := cons_iff.1 h
    obtain rfl := hp.next_eq_body
    rw [List.flatMap_cons, List.append_assoc] at hl ⊢
    by_cases hf : f p = true
    · obtain ⟨t, ts, ht⟩ := List.exists_cons_of_ne_nil hp.tokens_ne_nil
      rw [List.filter_cons_of_pos hf, List.flatMap_cons, List.append_assoc, ht,
        List.cons_append] at hc
      rw [ht, List.cons_append] at hl ⊢
      rw [sourceText_cons, String.toList_append,
        List.head?_append_of_ne_nil _ hl.1.text_ne_nil] at hc
      exact .inr (by rw [hl.head?_sourceText, hc])
    · rw [List.filter_cons_of_neg hf] at hc
      exact .inl (hps.isLineBreak_head?_filter (lexed_append.1 hl).2
        (hp.isBreak_head? hl.isChain_comment) f c hc)

/-- The text among the phrases of the body is read as tokens among which no call starts. -/
theorem exists_spliced (h : Phrased .body ps .body blanks) (hn : ∀ t ∈ blanks, t.isBlank = true)
    (hl : Lexed (ps.flatMap Phrase.tokens ++ blanks) []) :
    ∃ us, sourceText us = sourceText ((ps.filter Phrase.isText).flatMap Phrase.tokens ++ blanks) ∧
      Lexed us [] ∧ ∀ call : Call, call.callee ∉ Place.outside.heads us := by
  induction ps with
  | nil =>
    have hf : ∀ t ∈ blanks, t.isFiller = true := fun t ht => Token.isFiller_of_isBlank (hn t ht)
    refine ⟨blanks, rfl, hl, fun call hm => ?_⟩
    rw [(Place.outside_of_isFiller hf).1] at hm
    cases hm
  | cons p ps ih =>
    obtain ⟨middle, hp, hps⟩ := cons_iff.1 h
    obtain rfl := hp.next_eq_body
    rw [List.flatMap_cons, List.append_assoc] at hl
    obtain ⟨hpl, hrl⟩ := lexed_append.1 hl
    -- what is left behind the phrase has been read anew, so only the joint in front of it is open
    obtain ⟨us, htext, hus, hcalls⟩ := ih hps hrl
    by_cases hpt : p.isText = true
    · have hown : ∀ call : Call, call.callee ∉ Place.outside.heads p.tokens := by
        intro call hm
        rw [Phrase.isText_eq_false_iff.2 ⟨call, (hp.heads.1 call).1 hm⟩] at hpt
        cases hpt
      rw [List.filter_cons_of_pos hpt, List.flatMap_cons, List.append_assoc, sourceText_append,
        ← htext, ← sourceText_append]
      by_cases hr : ps.flatMap Phrase.tokens ++ blanks = []
      · -- the phrase was the last one, and stays it
        rw [flatMap_filter_eq_nil hr] at htext
        refine ⟨p.tokens, ?_, hpl.of_head? nofun, hown⟩
        rw [sourceText_append, htext, sourceText_nil, String.append_empty]
      · have hub := hps.isLineBreak_head?_filter hrl (hp.isBreak_head? hl.isChain_comment)
          Phrase.isText
        rw [← htext] at hub
        obtain ⟨vs, hvt, hvl, hsub⟩ := hp.exists_joined hr hl hus hub
        refine ⟨vs, hvt, hvl, fun call hm => ?_⟩
        rcases List.mem_append.1 (hsub hm) with hm | hm
        · exact hown call hm
        · exact hcalls call hm
    · rw [List.filter_cons_of_neg hpt]
      exact ⟨us, htext, hus, hcalls⟩

end Phrased

namespace Recipe

/-- Header and footer are the text of the phrases that declare nothing. -/
theorem header_append_footer (phrases : List Phrase) (declarations : List Declaration) :
    (ofDeclarations phrases declarations).header ++ (ofDeclarations phrases declarations).footer =
      phrasesText (phrases.filter Phrase.isText) := by
  have hf : phrases.filter Phrase.isText = phrases.takeWhile Phrase.isText ++
      (phrases.dropWhile Phrase.isText).filter Phrase.isText := by
    conv_lhs => rw [← List.takeWhile_append_dropWhile (p := Phrase.isText) (l := phrases)]
    rw [List.filter_append, List.filter_eq_self.2 fun p hp => List.mem_takeWhile_imp hp]
  rw [hf, phrasesText, List.flatMap_append, sourceText_append]
  rfl

/-- A source that declares nothing is a recipe that is all header. -/
theorem ofSource_of_isText {source : String} {tokens : List Token} {phrases : List Phrase}
    (ht : Token.ofSource source = .ok tokens) (hp : Phrase.ofTokens tokens = .ok phrases)
    (hn : ∀ p ∈ phrases, p.isText = true) :
    Recipe.ofSource source = .ok ⟨source, "", [], [], ""⟩ := by
  refine ofSource_eq_ok_iff.2 ⟨tokens, phrases, [], ht, hp, ?_, ?_⟩
  · rw [callStatements_of_isText hn]
    exact .nil
  · rw [ofDeclarations_of_isText hn, phrasesText, Phrase.flatMap_tokens_of_ofTokensIn hp,
      (Token.ofSource_eq_ok_iff.1 ht).1]

end Recipe

/-- Phrases that lead nowhere but through the preamble declare nothing. -/
theorem Phrased.isText_of_preamble {ps : List Phrase} {rest : List Token}
    (h : Phrased .preamble ps .preamble rest) : ∀ p ∈ ps, p.isText = true := by
  intro p hp
  by_contra hf
  obtain ⟨call, hc⟩ := Phrase.isText_eq_false_iff.1 (by simpa using hf)
  obtain ⟨-, hk⟩ | ⟨hr, -⟩ := h.kinds_of_preamble
  · have hmem := hk p hp
    rw [hc] at hmem
    revert hmem
    cases call <;> decide
  · cases hr

/-- Tokens among which no call starts fall into phrases that declare nothing. -/
theorem exists_phrased_text {us : List Token}
    (h : ∀ call : Call, call.callee ∉ Place.outside.heads us) :
    ∃ ps blanks, us = ps.flatMap Phrase.tokens ++ blanks ∧ Phrased .body ps .body blanks ∧
      (∀ t ∈ blanks, t.isBlank = true) ∧ ∀ p ∈ ps, p.isText = true := by
  obtain ⟨ps, blanks, rfl, hps, hb⟩ := exists_phrased_body us
  refine ⟨ps, blanks, rfl, hps, hb, fun p hp => ?_⟩
  by_contra hf
  obtain ⟨call, hc⟩ := Phrase.isText_eq_false_iff.1 (by simpa using hf)
  exact h call ((hps.exists_call_iff hb call).2 ⟨p, hp, hc⟩)

/-- The text of a body goes into phrases behind the same class header. -/
theorem exists_text_of_body {ps : List Phrase} {blanks : List Token}
    (h : Phrased .preamble ps .body blanks) (hb : ∀ t ∈ blanks, t.isBlank = true)
    (hl : Lexed (ps.flatMap Phrase.tokens ++ blanks) []) :
    ∃ tokens phrases, Token.ofSource (phrasesText ((ps ++ trailing blanks).filter Phrase.isText)) =
        .ok tokens ∧ Phrase.ofTokens tokens = .ok phrases ∧ ∀ p ∈ phrases, p.isText = true := by
  obtain ⟨before, after, rfl, hafter, htext, hbefore, ts, hcolon⟩ := h.exists_header
  rw [List.flatMap_append, List.append_assoc] at hl
  obtain ⟨hheader, hbody⟩ := lexed_append.1 hl
  obtain ⟨us, hus, hul, hcalls⟩ := hafter.exists_spliced hb hbody
  have hhead := hafter.head?_filter hbody Phrase.isText
  rw [← hus] at hhead
  obtain ⟨qs, spaces, rfl, hqs, hs, hqtext⟩ := exists_phrased_text hcalls
  refine ⟨before.flatMap Phrase.tokens ++ (qs.flatMap Phrase.tokens ++ spaces),
    before ++ qs ++ trailing spaces, Token.ofSource_eq_ok_iff.2 ⟨?_, lexed_append.2 ⟨?_, hul⟩⟩,
    Phrase.ofTokensIn_eq_ok_iff.2 ⟨before ++ qs, .body, spaces,
      Phrased.append_iff.2 ⟨.body, hbefore _, hqs⟩, hs, by simp, rfl⟩, ?_⟩
  · rw [sourceText_append, hus, ← sourceText_append, List.filter_append,
      List.filter_eq_self.2 (isText_trailing blanks), phrasesText_append_trailing,
      List.filter_append, List.filter_eq_self.2 htext, List.flatMap_append, List.append_assoc]
  · rw [hcolon] at hheader ⊢
    rw [List.append_nil] at hheader ⊢
    exact hheader.colon hhead
  · exact List.forall_mem_append.2
      ⟨List.forall_mem_append.2 ⟨htext, hqtext⟩, isText_trailing spaces⟩

/-- The text that is left of a recipe without its declarations is a recipe that declares nothing. -/
theorem ofSource_removed {source : String} {r : Recipe} (h : Recipe.ofSource source = .ok r) :
    Recipe.ofSource (r.header ++ r.footer) = .ok ⟨r.header ++ r.footer, "", [], [], ""⟩ := by
  obtain ⟨tokens, phrases, declarations, ht, hp, -, rfl⟩ := Recipe.ofSource_eq_ok_iff.1 h
  rw [Recipe.header_append_footer]
  obtain ⟨rfl, hl⟩ := Token.ofSource_eq_ok_iff.1 ht
  obtain ⟨ps, next, blanks, hps, hb, rfl, rfl⟩ := Phrase.ofTokensIn_eq_ok_iff.1 hp
  cases next with
  | preamble =>
    have hn : ∀ p ∈ ps ++ trailing blanks, p.isText = true :=
      List.forall_mem_append.2 ⟨hps.isText_of_preamble, isText_trailing blanks⟩
    rw [List.filter_eq_self.2 hn, phrasesText_append_trailing]
    exact Recipe.ofSource_of_isText ht hp hn
  | body =>
    obtain ⟨us, qs, hus, hqs, htext⟩ := exists_text_of_body hps hb hl
    exact Recipe.ofSource_of_isText hus hqs htext

/-- A line feed that the continued line before it takes in, and two comment blocks that become
one. -/
theorem ofSource_removed_continued :
    let source := "class A:\n x\\\r\rversion('1')\n y\n #a\n depends_on('y')\n #b\n"
    let rest := "class A:\n x\\\r\n y\n #a\n #b\n"
    (∃ r, Recipe.ofSource source = .ok r ∧ r.header ++ r.footer = rest ∧ r.versions.length = 1 ∧
      r.dependencies.length = 1) ∧ Recipe.ofSource rest = .ok ⟨rest, "", [], [], ""⟩ := by
  intro source rest
  have h : Recipe.ofSource source = .ok ⟨"class A:\n x\\\r", "",
      [⟨⟨.string, "'1'"⟩, none, none, none⟩], [⟨⟨.string, "'y'"⟩, [], none⟩],
      "\n y\n #a\n #b\n"⟩ := by
    cbv
  have hrest : "class A:\n x\\\r" ++ "\n y\n #a\n #b\n" = rest := by simp [rest]
  have hremoved := ofSource_removed h
  dsimp only at hremoved
  rw [hrest] at hremoved
  exact ⟨⟨_, h, hrest, rfl, rfl⟩, hremoved⟩

end PackageRecipe
