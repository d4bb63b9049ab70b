import PackageRecipe.Proofs.Phrase.Neighbour
import PackageRecipe.Proofs.Token.Ending

/-!
Where phrases meet in the text. A phrase of the body is followed by a line break, and the header of
the class ends with a colon, so phrases can be taken away or put in between without a change in how
their neighbours are read. Only line feeds count as line breaks here; before a carriage return more
might belong to the break.
-/
namespace PackageRecipe

open Lexeme

theorem HeaderForm.exists_colon {depth : Nat} {ts : List Token} (h : HeaderForm depth ts) :
    ∃ us t, ts = us ++ [t] ∧ t.isDelimiter ":" = true := by
  induction h with
  | @colon t ht => exact ⟨[], t, rfl, ht⟩
  | @cons depth u ts _ _ ih =>
    obtain ⟨us, t, rfl, ht⟩ := ih
    exact ⟨u :: us, t, rfl, ht⟩

namespace Phrased

variable {region : Region} {ps : List Phrase} {rest : List Token}

/-- Phrases up to a place in the body end with the colon of the class header or before a line
break. -/
theorem colon_or_break (h : Phrased .preamble ps .body rest)
    (hc : (ps.flatMap Phrase.tokens ++ rest).IsChain fun t u =>
      t.isComment = true → u.isBreak = true) :
    (∃ ts t, ps.flatMap Phrase.tokens = ts ++ [t] ∧ t.isDelimiter ":" = true) ∨
      ∀ t ∈ rest.head?, t.isBreak = true := by
  rcases List.eq_nil_or_concat ps with rfl | ⟨qs, p, rfl⟩
  · cases h
  · rw [List.concat_eq_append] at h hc ⊢
    obtain ⟨middle, -, hp⟩ := append_iff.1 h
    obtain ⟨next, hf, hn⟩ := cons_iff.1 hp
    cases hn
    rw [List.flatMap_append, List.append_assoc] at hc
    cases middle with
    | body =>
      refine .inr (hf.isBreak_head? ?_)
      simpa using (List.isChain_append.1 hc).2.1
    | preamble =>
      obtain ⟨lead, core, ht, -, hk⟩ := hf
      generalize p.kind = kind at hk
      cases hk with
      | classHeader _ hform =>
        obtain ⟨us, t, he, hd⟩ := hform.exists_colon
        refine .inl ⟨qs.flatMap Phrase.tokens ++ (lead ++ us), t, ?_, hd⟩
        simp [ht, he]

/-- Phrases up to a place in the body may stand before a line feed. -/
theorem lexed_before_lineFeed (h : Phrased .preamble ps .body rest)
    (hl : Lexed (ps.flatMap Phrase.tokens ++ rest) []) (hn : rest ≠ [])
    (hr : '\r' ∉ (sourceText rest).toList) (cs : List Char) :
    Lexed (ps.flatMap Phrase.tokens) ('\n' :: cs) := by
  obtain ⟨hps, hrest⟩ := lexed_append.1 hl
  rw [List.append_nil] at hps
  rcases h.colon_or_break hl.isChain_comment with ⟨ts, t, he, hd⟩ | hb
  · rw [he] at hps ⊢
    obtain ⟨hts, ht⟩ := lexed_append.1 hps
    obtain rfl : t = ⟨.delimiter, ":"⟩ := by
      obtain ⟨kind, text⟩ := t
      simpa [Token.isDelimiter, Token.spells] using hd
    exact lexed_append.2 ⟨hts.of_head? fun c hc => hc, Token.endsBefore_colon cs, trivial⟩
  · refine hps.of_head? fun c hc => ?_
    rw [head?_sourceText_eq_lineFeed hn hrest.exists_endsBefore hb hr]
    exact hc

/-- Some of the phrases of the body are read as they are among all of them. -/
theorem lexed_filter (h : Phrased .body ps .body rest)
    (hl : Lexed (ps.flatMap Phrase.tokens ++ rest) [])
    (hb : ∀ t ∈ (ps.flatMap Phrase.tokens ++ rest).head?, t.isBreak = true)
    (hr : '\r' ∉ (sourceText (ps.flatMap Phrase.tokens ++ rest)).toList) (f : Phrase → Bool) :
    Lexed ((ps.filter f).flatMap Phrase.tokens ++ rest) [] ∧
      '\r' ∉ (sourceText ((ps.filter f).flatMap Phrase.tokens ++ rest)).toList := by
  induction ps with
  | nil => exact ⟨hl, hr⟩
  | cons p ps ih =>
    obtain ⟨middle, hp, hps⟩ := cons_iff.1 h
    obtain rfl := hp.next_eq_body
    rw [List.flatMap_cons, List.append_assoc] at hl hr
    obtain ⟨hpl, hrl⟩ := lexed_append.1 hl
    rw [sourceText_append, String.toList_append, List.mem_append, not_or] at hr
    have hh := hp.isBreak_head? hl.isChain_comment
    obtain ⟨hfl, hfr⟩ := ih hps hrl hh hr.2
    by_cases hf : f p = true
    · rw [List.filter_cons_of_pos hf, List.flatMap_cons, List.append_assoc]
      refine ⟨lexed_append.2 ⟨?_, hfl⟩, ?_⟩
      · -- either nothing follows any more, or a line feed as before
        by_cases hn : (ps.filter f).flatMap Phrase.tokens ++ rest = []
        · rw [hn]
          exact hpl.of_head? nofun
        · have hne : ps.flatMap Phrase.tokens ++ rest ≠ [] :=
            fun he => hn (flatMap_filter_eq_nil he)
          have hbf := hps.isBreak_head?_filter hrl.isChain_comment hh f
          refine hpl.of_head? fun c hc => ?_
          rw [List.append_nil] at hc ⊢
          rw [head?_sourceText_eq_lineFeed hn hfl.exists_endsBefore hbf hfr] at hc
          rw [head?_sourceText_eq_lineFeed hne hrl.exists_endsBefore hh hr.2]
          exact hc
      · rw [sourceText_append, String.toList_append, List.mem_append, not_or]
        exact ⟨hr.1, hfr⟩
    · rw [List.filter_cons_of_neg hf]
      exact ⟨hfl, hfr⟩

end Phrased
end PackageRecipe
