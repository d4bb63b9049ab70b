import PackageRecipe.Proofs.Phrase.Neighbour
import PackageRecipe.Proofs.Phrase.Statement

/-!
What remains of the body when its declarations are taken out. The phrases of text stay phrases, only
that comment blocks come to lie side by side, and these make one block.
-/
namespace PackageRecipe

namespace Region

/-- What the body takes for a phrase is a comment block or a statement. -/
theorem Takes.body_cases {kind : Phrase.Kind} {core rest : List Token} {next : Region}
    (h : body.Takes kind core next rest) : next = .body ∧ ∃ t ts, core = t :: ts ∧
      (kind = .remark ∧ t.isComment = true ∧ (∀ u ∈ ts, u.isFiller = true) ∧
        (∀ u ∈ (t :: ts).getLast?, u.isComment = true) ∧ commentAhead rest = false ∨
      kind = statementKind t ∧ t.isBlank = false ∧ t.isComment = false) := by
  cases h with
  | remarks hc hf hl hr => exact ⟨rfl, _, _, rfl, .inl ⟨rfl, hc, hf, hl, hr⟩⟩
  | statement hb hc => exact ⟨rfl, _, _, rfl, .inr ⟨rfl, hb, hc⟩⟩

theorem statementKind_ne_remark (t : Token) : statementKind t ≠ .remark := by
  unfold statementKind
  split_ifs <;> decide

variable {p q : Phrase} {next : Region} {rest other : List Token}

/-- Two comment blocks side by side are one. -/
theorem Finds.merge_remarks (hp : body.Finds p .body rest) (hq : body.Finds q next other)
    (hk : p.kind = .remark) (hc : commentAhead (q.tokens ++ other) = true) :
    body.Finds ⟨.remark, p.tokens ++ q.tokens⟩ next other := by
  obtain ⟨lead, core, ht, hl, hp⟩ := hp
  obtain ⟨lead', core', ht', hl', hq⟩ := hq
  rw [hk] at hp
  obtain ⟨-, t, ts, rfl, ⟨-, hct, hf, -, -⟩ | ⟨hr, -⟩⟩ := hp.body_cases
  · obtain ⟨rfl, u, us, rfl, ⟨-, hcu, hfu, hlast, hr⟩ | ⟨-, hb, hn⟩⟩ := hq.body_cases
    · refine ⟨lead, t :: (ts ++ lead' ++ u :: us), by simp [ht, ht'], hl, ?_⟩
      refine .remarks hct ?_ ?_ hr
      · have hlead : ∀ v ∈ lead', v.isFiller = true :=
          fun v hv => Token.isFiller_of_isBlank (hl' v hv)
        have hu : u.isFiller = true := Token.isFiller_of_isComment hcu
        exact List.forall_mem_append.2 ⟨List.forall_mem_append.2 ⟨hf, hlead⟩,
          List.forall_mem_cons.2 ⟨hu, hfu⟩⟩
      · rw [← List.cons_append, List.getLast?_append_of_ne_nil _ (List.cons_ne_nil u us)]
        exact hlast
    · rw [ht', List.append_assoc, commentAhead_append_of_isBlank hl', List.cons_append,
        commentAhead_cons_of_not_isBlank hb, hn] at hc
      cases hc
  · exact absurd hr.symm (statementKind_ne_remark t)

end Region

namespace Phrased

variable {ps : List Phrase} {blanks : List Token}

/-- The text among the phrases of the body falls into phrases of text again. -/
theorem exists_text (h : Phrased .body ps .body blanks) (hn : ∀ t ∈ blanks, t.isBlank = true)
    (hc : (ps.flatMap Phrase.tokens ++ blanks).IsChain fun t u =>
      t.isComment = true → u.isBreak = true)
    (hb : ∀ t ∈ (ps.flatMap Phrase.tokens ++ blanks).head?, t.isBreak = true) :
    ∃ texts, Phrased .body texts .body blanks ∧ (∀ p ∈ texts, p.isText = true) ∧
      texts.flatMap Phrase.tokens = (ps.filter Phrase.isText).flatMap Phrase.tokens := by
  induction ps with
  | nil => exact ⟨[], .nil, nofun, rfl⟩
  | cons p ps ih =>
    obtain ⟨middle, hp, hps⟩ := cons_iff.1 h
    obtain rfl := hp.next_eq_body
    rw [List.flatMap_cons, List.append_assoc] at hc
    have hh := hp.isBreak_head? hc
    have hcs := (List.isChain_append.1 hc).2.1
    obtain ⟨texts, ht, htext, he⟩ := ih hps hcs hh
    by_cases hpt : p.isText = true
    · rw [List.filter_cons_of_pos hpt, List.flatMap_cons, ← he]
      by_cases hm : p.kind = .remark ∧ commentAhead (texts.flatMap Phrase.tokens ++ blanks) = true
      · obtain ⟨hk, hahead⟩ := hm
        cases texts with
        | nil =>
          rw [List.flatMap_nil, List.nil_append, commentAhead_eq_false_of_isBlank hn] at hahead
          cases hahead
        | cons q qs =>
          obtain ⟨last, hq, hqs⟩ := cons_iff.1 ht
          rw [List.flatMap_cons, List.append_assoc] at hahead
          refine ⟨⟨.remark, p.tokens ++ q.tokens⟩ :: qs, .cons (hp.merge_remarks hq hk hahead) hqs,
            ?_, ?_⟩
          · exact List.forall_mem_cons.2 ⟨rfl, (List.forall_mem_cons.1 htext).2⟩
          · simp
      · have hbreak := hps.isBreak_head?_filter hcs hh Phrase.isText
        have hempty : ps.flatMap Phrase.tokens ++ blanks = [] →
            (ps.filter Phrase.isText).flatMap Phrase.tokens ++ blanks = [] := flatMap_filter_eq_nil
        rw [← he] at hbreak hempty
        refine ⟨p :: texts, .cons (hp.before_break hbreak hempty fun hk => ?_) ht, ?_, rfl⟩
        · simpa [hk] using hm
        · exact List.forall_mem_cons.2 ⟨hpt, htext⟩
    · rw [List.filter_cons_of_neg hpt]
      exact ⟨texts, ht, htext, he⟩

end Phrased
end PackageRecipe
