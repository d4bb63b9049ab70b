import Mathlib.Data.List.Chain
import PackageRecipe.Proofs.Phrase.Sequence

/-!
What a phrase needs of what follows it. Only the next token and the next that is not blank can
matter, so a sequence of phrases stays what it is when something far behind it changes. Inside the
body every phrase but the first begins with a line break, and any statement or comment block may
come to stand before another line break.
-/
namespace PackageRecipe

theorem commentAhead_append {ts us : List Token} (h : ∃ t ∈ ts, t.isBlank = false) :
    commentAhead (ts ++ us) = commentAhead ts := by
  induction ts with
  | nil => simp at h
  | cons t ts ih =>
    rw [List.cons_append]
    cases hb : t.isBlank with
    | true =>
      rw [commentAhead_cons_of_isBlank hb, commentAhead_cons_of_isBlank hb]
      obtain ⟨u, hu, hn⟩ := h
      obtain rfl | hu := List.mem_cons.1 hu
      · rw [hb] at hn
        cases hn
      · exact ih ⟨u, hu, hn⟩
    | false =>
      rw [commentAhead_cons_of_not_isBlank hb, commentAhead_cons_of_not_isBlank hb]

theorem commentAhead_eq_false_of_isBlank {ts : List Token} (h : ∀ t ∈ ts, t.isBlank = true) :
    commentAhead ts = false := by
  rw [commentAhead, List.dropWhile_eq_nil_iff.2 h]
  rfl

theorem commentAhead_append_of_isBlank {ts us : List Token} (h : ∀ t ∈ ts, t.isBlank = true) :
    commentAhead (ts ++ us) = commentAhead us := by
  rw [commentAhead, commentAhead, List.dropWhile_append_of_pos h]

namespace Region

variable {region next : Region} {p : Phrase} {rest other : List Token}

/-- A phrase is found alike before what begins alike. -/
theorem Finds.congr_rest (h : region.Finds p next rest) (hh : other.head? = rest.head?)
    (hc : commentAhead other = commentAhead rest) : region.Finds p next other := by
  obtain ⟨lead, core, he, hl, ht⟩ := h
  refine ⟨lead, core, he, hl, ?_⟩
  generalize p.kind = kind at ht ⊢
  cases ht with
  | comments hk hf hr => exact .comments hk hf (by rwa [hh])
  | imports hk hu hs => exact .imports hk hu (by rwa [EndsStatement, hh])
  | classHeader hk hf => exact .classHeader hk hf
  | remarks hk hf hlast hr => exact .remarks hk hf hlast (by rwa [hc])
  | statement hb hk hu hs => exact .statement hb hk hu (by rwa [EndsStatement, hh])

/-- A phrase after which the body goes on may stand before any line break, unless it is a comment
block and another comment comes first. If a statement has left brackets open, it reaches to the end
of the tokens. -/
theorem Finds.before_break (h : region.Finds p .body rest)
    (hb : ∀ t ∈ other.head?, t.isBreak = true) (he : rest = [] → other = [])
    (hc : p.kind = .remark → commentAhead other = false) : region.Finds p .body other := by
  obtain ⟨lead, core, ht, hl, hk⟩ := h
  refine ⟨lead, core, ht, hl, ?_⟩
  generalize p.kind = kind at hk hc ⊢
  cases hk with
  | classHeader hk hf => exact .classHeader hk hf
  | remarks hk hf hlast _ => exact .remarks hk hf hlast (hc rfl)
  | statement hn hk hu hs =>
    refine .statement hn hk hu fun t ht => ⟨hb t ht, ?_⟩
    cases rest with
    | nil =>
      rw [he rfl] at ht
      cases ht
    | cons u us => exact (hs u rfl).2

/-- The tokens may end behind any phrase. -/
theorem Finds.before_end (h : region.Finds p next rest) : region.Finds p next [] := by
  obtain ⟨lead, core, ht, hl, hk⟩ := h
  refine ⟨lead, core, ht, hl, ?_⟩
  generalize p.kind = kind at hk ⊢
  cases hk with
  | comments hk hf _ => exact .comments hk hf nofun
  | imports hk hu _ => exact .imports hk hu nofun
  | classHeader hk hf => exact .classHeader hk hf
  | remarks hk hf hlast _ => exact .remarks hk hf hlast rfl
  | statement hn hk hu _ => exact .statement hn hk hu nofun

theorem Finds.next_eq_body (h : body.Finds p next rest) : next = .body := by
  obtain ⟨lead, core, -, -, hk⟩ := h
  obtain ⟨hn, -⟩ | ⟨hr, -⟩ := hk.kind_mem
  · exact hn
  · cases hr

/-- After a phrase of the body there is a line break or nothing. -/
theorem Finds.isBreak_head? (h : body.Finds p next rest)
    (hc : (p.tokens ++ rest).IsChain fun t u => t.isComment = true → u.isBreak = true) :
    ∀ t ∈ rest.head?, t.isBreak = true := by
  obtain ⟨lead, core, he, -, hk⟩ := h
  generalize p.kind = kind at hk
  intro t ht
  cases hk with
  | @remarks u us _ _ _ hl _ =>
    have hs : (u :: us).getLast?.isSome = true := List.getLast?_isSome.2 (List.cons_ne_nil u us)
    obtain ⟨last, hlast⟩ := Option.isSome_iff_exists.1 hs
    have seam := (List.isChain_append.1 hc).2.2 last (by rw [he, List.getLast?_append, hlast]; rfl)
    exact seam t ht (hl last hlast)
  | statement _ _ _ hs => exact (hs t ht).1

end Region

namespace Phrased

variable {region next : Region} {ps : List Phrase} {rest other : List Token}

theorem exists_not_isBlank (h : Phrased region ps next rest) (hn : ps ≠ []) :
    ∃ t ∈ ps.flatMap Phrase.tokens, t.isBlank = false := by
  cases h with
  | nil => exact absurd rfl hn
  | @cons _ _ _ p ps _ hp _ =>
    obtain ⟨t, ht, hb⟩ := hp.exists_not_isBlank
    exact ⟨t, List.mem_flatMap.2 ⟨p, List.mem_cons_self, ht⟩, hb⟩

/-- What follows a sequence of phrases matters to the last of them only. -/
theorem of_last (h : Phrased region ps next rest)
    (hl : ∀ (region : Region) (p : Phrase), region.Finds p next rest → region.Finds p next other) :
    Phrased region ps next other := by
  induction ps generalizing region with
  | nil =>
    cases h
    exact .nil
  | cons p ps ih =>
    obtain ⟨middle, hp, hps⟩ := cons_iff.1 h
    refine .cons ?_ (ih hps)
    cases ps with
    | nil =>
      cases hps
      exact hl region p hp
    | cons q qs =>
      obtain ⟨t, ht, hn⟩ := hps.exists_not_isBlank (List.cons_ne_nil q qs)
      refine hp.congr_rest ?_ ?_
      · rw [List.head?_append_of_ne_nil _ (List.ne_nil_of_mem ht),
          List.head?_append_of_ne_nil _ (List.ne_nil_of_mem ht)]
      · rw [commentAhead_append ⟨t, ht, hn⟩, commentAhead_append ⟨t, ht, hn⟩]

/-- What follows a sequence of phrases that ends in the body may be replaced by what begins with a
line break. -/
theorem before_break (h : Phrased region ps .body rest) (hne : rest ≠ [])
    (hb : ∀ t ∈ other.head?, t.isBreak = true) (hc : commentAhead other = false) :
    Phrased region ps .body other :=
  h.of_last fun _ _ hp => hp.before_break hb (fun e => absurd e hne) fun _ => hc

/-- What follows a sequence of phrases may be cut off. -/
theorem before_end (h : Phrased region ps next rest) : Phrased region ps next [] :=
  h.of_last fun _ _ hp => hp.before_end

/-- Line breaks begin all phrases of the body once one begins, and the blanks after them. -/
theorem isBreak_heads (h : Phrased .body ps next rest)
    (hc : (ps.flatMap Phrase.tokens ++ rest).IsChain fun t u =>
      t.isComment = true → u.isBreak = true)
    (hb : ∀ t ∈ (ps.flatMap Phrase.tokens ++ rest).head?, t.isBreak = true) :
    (∀ p ∈ ps, ∀ t ∈ p.tokens.head?, t.isBreak = true) ∧ ∀ t ∈ rest.head?, t.isBreak = true := by
  induction ps with
  | nil => exact ⟨nofun, hb⟩
  | cons p ps ih =>
    obtain ⟨middle, hp, hps⟩ := cons_iff.1 h
    obtain rfl := hp.next_eq_body
    rw [List.flatMap_cons, List.append_assoc] at hc hb
    have hh := hp.isBreak_head? hc
    obtain ⟨heads, hr⟩ := ih hps (List.isChain_append.1 hc).2.1 hh
    refine ⟨List.forall_mem_cons.2 ⟨?_, heads⟩, hr⟩
    rwa [List.head?_append_of_ne_nil _ hp.tokens_ne_nil] at hb

theorem flatMap_filter_eq_nil {f : Phrase → Bool} (h : ps.flatMap Phrase.tokens ++ rest = []) :
    (ps.filter f).flatMap Phrase.tokens ++ rest = [] := by
  obtain ⟨hp, hb⟩ := List.append_eq_nil_iff.1 h
  rw [hb, List.append_nil, List.flatMap_eq_nil_iff]
  exact fun p hp' => List.flatMap_eq_nil_iff.1 hp p (List.mem_filter.1 hp').1

/-- Some of the phrases begin as all of them do. -/
theorem isBreak_head?_filter (h : Phrased .body ps next rest)
    (hc : (ps.flatMap Phrase.tokens ++ rest).IsChain fun t u =>
      t.isComment = true → u.isBreak = true)
    (hb : ∀ t ∈ (ps.flatMap Phrase.tokens ++ rest).head?, t.isBreak = true) (f : Phrase → Bool) :
    ∀ t ∈ ((ps.filter f).flatMap Phrase.tokens ++ rest).head?, t.isBreak = true := by
  obtain ⟨heads, hr⟩ := h.isBreak_heads hc hb
  cases hf : ps.filter f with
  | nil => exact hr
  | cons p qs =>
    have hp : p ∈ ps := (List.mem_filter.1 (hf ▸ List.mem_cons_self : p ∈ ps.filter f)).1
    rw [List.flatMap_cons, List.append_assoc, List.head?_append_of_ne_nil _ (h.tokens_ne_nil p hp)]
    exact heads p hp

end Phrased
end PackageRecipe
