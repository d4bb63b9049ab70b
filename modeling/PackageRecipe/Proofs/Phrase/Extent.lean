import Mathlib.Data.List.TakeWhile
import PackageRecipe.Phrase.Extent

/-!
What a cut takes, said without the cut. A statement is a stretch with no line break outside
brackets, a comment block a stretch of filler that ends with a comment, a class header a stretch up
to its colon. Each is the only such stretch that what follows allows.
-/
namespace PackageRecipe

/-- How many brackets are open after the tokens if `depth` were open before them. -/
def openAfter (depth : Nat) (tokens : List Token) : Nat := tokens.foldl Token.depthAfter depth

/-- No line break among the tokens stands outside brackets, if `depth` are open before them. -/
def Unbroken (depth : Nat) : List Token → Prop
  | [] => True
  | t :: ts => (t.isBreak = true → depth ≠ 0) ∧ Unbroken (t.depthAfter depth) ts

/-- A statement that leaves `depth` brackets open may end before these tokens. -/
def EndsStatement (depth : Nat) (rest : List Token) : Prop :=
  ∀ t ∈ rest.head?, t.isBreak = true ∧ depth = 0

/-- The first token that is not blank is a comment. -/
def commentAhead (tokens : List Token) : Bool :=
  (tokens.dropWhile Token.isBlank).head?.any Token.isComment

/-- A class header with its colon, if `depth` brackets are open before it. -/
inductive HeaderForm : Nat → List Token → Prop where
  | colon {t : Token} : t.isDelimiter ":" = true → HeaderForm 0 [t]
  | cons {depth : Nat} {t : Token} {ts : List Token} :
      (depth = 0 → t.isBreak = false ∧ t.isDelimiter ":" = false ∧ t.isCloser = false) →
      HeaderForm (t.depthAfter depth) ts → HeaderForm depth (t :: ts)

theorem Token.not_isBreak_of_isDelimiter {text : String} {t : Token}
    (h : t.isDelimiter text = true) : t.isBreak = false := by
  have hk : t.kind = .delimiter := of_decide_eq_true (Bool.and_eq_true_iff.1 h).1
  simp [isBreak, hk]

theorem Token.not_isBlank_of_isComment {t : Token} (h : t.isComment = true) :
    t.isBlank = false := by
  have hk : t.kind = .comment := of_decide_eq_true h
  simp [isBlank, hk]

theorem Token.not_isBlank_of_isKeyword {text : String} {t : Token} (h : t.isKeyword text = true) :
    t.isBlank = false := by
  have hk : t.kind = .keyword := of_decide_eq_true (Bool.and_eq_true_iff.1 h).1
  simp [isBlank, hk]

theorem Token.not_isComment_of_isKeyword {text : String} {t : Token} (h : t.isKeyword text = true) :
    t.isComment = false := by
  have hk : t.kind = .keyword := of_decide_eq_true (Bool.and_eq_true_iff.1 h).1
  simp [isComment, hk]

theorem Token.not_isComment_of_isBlank {t : Token} (h : t.isBlank = true) :
    t.isComment = false := by
  cases hc : t.isComment with
  | false => rfl
  | true =>
    rw [not_isBlank_of_isComment hc] at h
    cases h

theorem Token.isFiller_of_isBlank {t : Token} (h : t.isBlank = true) : t.isFiller = true := by
  rw [isFiller, h, Bool.true_or]

theorem Token.isFiller_of_isComment {t : Token} (h : t.isComment = true) : t.isFiller = true := by
  rw [isFiller, h, Bool.or_true]

theorem Token.isFiller_of_isBreak {t : Token} (h : t.isBreak = true) : t.isFiller = true := by
  have hk : t.kind = .newline := of_decide_eq_true h
  exact isFiller_of_isBlank (by simp [isBlank, hk])

theorem Token.not_isDelimiter_of_isFiller {t : Token} (h : t.isFiller = true) (text : String) :
    t.isDelimiter text = false := by
  have hk : (t.kind = .newline ∨ t.kind = .whitespace) ∨ t.kind = .comment := by
    simpa [isFiller, isBlank, isComment] using h
  rcases hk with (hk | hk) | hk <;> simp [isDelimiter, spells, hk]

theorem Token.depthAfter_of_isFiller {t : Token} (h : t.isFiller = true) (depth : Nat) :
    t.depthAfter depth = depth := by
  simp [depthAfter, isOpener, isCloser, not_isDelimiter_of_isFiller h]

theorem commentAhead_cons_of_isBlank {t : Token} {ts : List Token} (h : t.isBlank = true) :
    commentAhead (t :: ts) = commentAhead ts := by
  rw [commentAhead, commentAhead, List.dropWhile_cons_of_pos h]

theorem commentAhead_cons_of_not_isBlank {t : Token} {ts : List Token} (h : t.isBlank = false) :
    commentAhead (t :: ts) = t.isComment := by
  rw [commentAhead, List.dropWhile_cons_of_neg (by simp [h])]
  rfl

namespace Cut

theorem statement_append {depth : Nat} {taken rest : List Token} (hu : Unbroken depth taken)
    (he : EndsStatement (openAfter depth taken) rest) :
    statement depth (taken ++ rest) = ⟨taken, rest⟩ := by
  induction taken generalizing depth with
  | nil =>
    cases rest with
    | nil => rfl
    | cons t ts =>
      obtain ⟨hb, hd⟩ := he t rfl
      obtain rfl : depth = 0 := hd
      rw [List.nil_append, statement, hb]
      rfl
  | cons t ts ih =>
    have hb : (t.isBreak && decide (depth = 0)) = false := by
      cases h : t.isBreak with
      | false => rfl
      | true => simpa using hu.1 h
    rw [List.cons_append, statement, hb, if_neg Bool.false_ne_true, ih hu.2 he]
    rfl

theorem statement_spec (depth : Nat) (tokens : List Token) :
    Unbroken depth (statement depth tokens).taken ∧
      EndsStatement (openAfter depth (statement depth tokens).taken)
        (statement depth tokens).rest := by
  induction tokens generalizing depth with
  | nil => exact ⟨trivial, nofun⟩
  | cons t ts ih =>
    rw [statement]
    split
    · rename_i h
      refine ⟨trivial, ?_⟩
      rintro _ ⟨⟩
      simpa [openAfter] using h
    · rename_i h
      obtain ⟨hu, he⟩ := ih (t.depthAfter depth)
      refine ⟨⟨?_, hu⟩, he⟩
      intro hb hd
      simp [hb, hd] at h

theorem statement_eq_iff {depth : Nat} {tokens taken rest : List Token} :
    statement depth tokens = ⟨taken, rest⟩ ↔
      tokens = taken ++ rest ∧ Unbroken depth taken ∧
        EndsStatement (openAfter depth taken) rest := by
  constructor
  · intro h
    have ht := tokens_statement depth tokens
    have hs := statement_spec depth tokens
    rw [h] at ht hs
    exact ⟨ht.symm, hs⟩
  · intro h
    obtain ⟨rfl, hu, he⟩ := h
    exact statement_append hu he

theorem remarks_cons_of_isComment {t : Token} (h : t.isComment = true) (ts : List Token) :
    remarks (t :: ts) = (remarks ts).cons t := by
  rw [remarks, if_pos h]

/-- A blank belongs to a comment block if the block goes on behind it. -/
theorem remarks_cons_of_isBlank {t : Token} (h : t.isBlank = true) (ts : List Token) :
    remarks (t :: ts) =
      if (remarks ts).taken = [] then ⟨[], t :: ts⟩ else (remarks ts).cons t := by
  rw [remarks, if_neg (by simp [Token.not_isComment_of_isBlank h]), if_pos h]
  cases remarks ts with
  | mk taken rest => cases taken <;> rfl

theorem remarks_cons_of_not_isFiller {t : Token} (h : t.isFiller = false) (ts : List Token) :
    remarks (t :: ts) = ⟨[], t :: ts⟩ := by
  obtain ⟨hb, hc⟩ := Bool.or_eq_false_iff.1 h
  rw [remarks, if_neg (by simp [hc]), if_neg (by simp [hb])]

theorem remarks_of_not_commentAhead {tokens : List Token} (h : commentAhead tokens = false) :
    remarks tokens = ⟨[], tokens⟩ := by
  induction tokens with
  | nil => rfl
  | cons t ts ih =>
    cases hb : t.isBlank with
    | true =>
      rw [commentAhead_cons_of_isBlank hb] at h
      rw [remarks_cons_of_isBlank hb, ih h, if_pos rfl]
    | false =>
      rw [commentAhead_cons_of_not_isBlank hb] at h
      rw [remarks_cons_of_not_isFiller (by rw [Token.isFiller, hb, h]; rfl)]

theorem remarks_append {taken rest : List Token} (hf : ∀ t ∈ taken, t.isFiller = true)
    (hl : ∀ t ∈ taken.getLast?, t.isComment = true) (hr : commentAhead rest = false) :
    remarks (taken ++ rest) = ⟨taken, rest⟩ := by
  induction taken with
  | nil => exact remarks_of_not_commentAhead hr
  | cons t ts ih =>
    have last : ∀ u ∈ ts.getLast?, u.isComment = true := by
      intro u hu
      refine hl u ?_
      obtain ⟨ys, rfl⟩ := List.getLast?_eq_some_iff.1 hu
      simp [List.getLast?_cons]
    have more := ih (fun u hu => hf u (List.mem_cons_of_mem t hu)) last
    rw [List.cons_append]
    cases hc : t.isComment with
    | true => rw [remarks_cons_of_isComment hc, more, cons]
    | false =>
      have hb : t.isBlank = true := by
        simpa [Token.isFiller, hc] using hf t List.mem_cons_self
      -- a blank is not the last token taken, so the block goes on behind it
      have hn : ts ≠ [] := by
        rintro rfl
        rw [hl t rfl] at hc
        cases hc
      rw [remarks_cons_of_isBlank hb, more, if_neg hn, cons]

theorem remarks_spec (tokens : List Token) :
    (∀ t ∈ (remarks tokens).taken, t.isFiller = true) ∧
      (∀ t ∈ (remarks tokens).taken.getLast?, t.isComment = true) ∧
      commentAhead (remarks tokens).rest = false := by
  induction tokens with
  | nil => exact ⟨by simp [remarks], by simp [remarks], rfl⟩
  | cons t ts ih =>
    obtain ⟨hf, hl, hr⟩ := ih
    by_cases hc : t.isComment = true
    · rw [remarks_cons_of_isComment hc]
      refine ⟨?_, ?_, hr⟩
      · exact List.forall_mem_cons.2 ⟨Token.isFiller_of_isComment hc, hf⟩
      · intro u hu
        rw [cons, List.getLast?_cons] at hu
        cases hm : (remarks ts).taken.getLast? with
        | none =>
          rw [hm] at hu
          obtain rfl : t = u := Option.some.inj hu
          exact hc
        | some v => exact hl u (by simpa [hm] using hu)
    · by_cases hb : t.isBlank = true
      · rw [remarks_cons_of_isBlank hb]
        by_cases hn : (remarks ts).taken = []
        · -- nothing is taken behind the blank, so no comment comes first there
          have hrest : (remarks ts).rest = ts := by
            have all := tokens_remarks ts
            rwa [tokens, hn, List.nil_append] at all
          rw [if_pos hn]
          refine ⟨by simp, by simp, ?_⟩
          rw [commentAhead_cons_of_isBlank hb, ← hrest]
          exact hr
        · rw [if_neg hn]
          refine ⟨?_, ?_, hr⟩
          · exact List.forall_mem_cons.2 ⟨Token.isFiller_of_isBlank hb, hf⟩
          · rw [cons, List.getLast?_cons_of_ne_nil hn]
            exact hl
      · have hnb : t.isBlank = false := by simpa using hb
        have hnc : t.isComment = false := by simpa using hc
        rw [remarks_cons_of_not_isFiller (by rw [Token.isFiller, hnb, hnc]; rfl)]
        refine ⟨by simp, by simp, ?_⟩
        rw [commentAhead_cons_of_not_isBlank hnb]
        exact hnc

theorem remarks_eq_iff {tokens taken rest : List Token} :
    remarks tokens = ⟨taken, rest⟩ ↔
      tokens = taken ++ rest ∧ (∀ t ∈ taken, t.isFiller = true) ∧
        (∀ t ∈ taken.getLast?, t.isComment = true) ∧ commentAhead rest = false := by
  constructor
  · intro h
    have ht := tokens_remarks tokens
    have hs := remarks_spec tokens
    rw [h] at ht hs
    exact ⟨ht.symm, hs⟩
  · intro h
    obtain ⟨rfl, hf, hl, hr⟩ := h
    exact remarks_append hf hl hr

theorem span_append {p : Token → Bool} {taken rest : List Token} (ht : ∀ t ∈ taken, p t = true)
    (hr : ∀ t ∈ rest.head?, p t = false) : span p (taken ++ rest) = ⟨taken, rest⟩ := by
  have hd : rest.takeWhile p = [] ∧ rest.dropWhile p = rest := by
    cases rest with
    | nil => exact ⟨rfl, rfl⟩
    | cons t ts =>
      have ht : ¬ p t = true := by simp [hr t rfl]
      exact ⟨List.takeWhile_cons_of_neg ht, List.dropWhile_cons_of_neg ht⟩
  rw [span, List.takeWhile_append_of_pos ht, List.dropWhile_append_of_pos ht, hd.1, hd.2,
    List.append_nil]

theorem span_eq_iff {p : Token → Bool} {tokens taken rest : List Token} :
    span p tokens = ⟨taken, rest⟩ ↔
      tokens = taken ++ rest ∧ (∀ t ∈ taken, p t = true) ∧ ∀ t ∈ rest.head?, p t = false := by
  constructor
  · intro h
    have ht := tokens_span p tokens
    rw [h] at ht
    obtain ⟨rfl, rfl⟩ := Cut.mk.inj h
    refine ⟨ht.symm, fun t h => List.mem_takeWhile_imp h, fun t hm => ?_⟩
    obtain ⟨ts, hd⟩ := List.head?_eq_some_iff.1 hm
    have := List.head_dropWhile_not p (l := tokens) (by simp [hd])
    simpa [hd] using this
  · intro h
    obtain ⟨rfl, ht, hr⟩ := h
    exact span_append ht hr

end Cut

namespace Attempt

theorem header_append {depth : Nat} {taken : List Token} (h : HeaderForm depth taken)
    (rest : List Token) : header depth (taken ++ rest) = ⟨⟨taken, rest⟩, .ok ()⟩ := by
  induction h with
  | @colon t ht =>
    have hb := Token.not_isBreak_of_isDelimiter ht
    simp [header, hb, ht]
  | @cons depth t ts hd _ ih =>
    rw [List.cons_append, header, ih]
    by_cases hz : depth = 0
    · obtain ⟨hb, hc, hk⟩ := hd hz
      simp [hb, hc, hk, cons, Cut.cons]
    · simp [hz, cons, Cut.cons]

theorem headerForm_header {depth : Nat} {tokens : List Token}
    (h : (header depth tokens).outcome = .ok ()) :
    HeaderForm depth (header depth tokens).cut.taken := by
  induction tokens generalizing depth with
  | nil => cases h
  | cons t ts ih =>
    rw [header] at h ⊢
    split at h
    · cases h
    · rename_i hb
      rw [if_neg hb]
      split at h
      · rename_i hc
        rw [if_pos hc]
        obtain ⟨rfl, hc⟩ : depth = 0 ∧ t.isDelimiter ":" = true := by simpa using hc
        exact .colon hc
      · rename_i hc
        rw [if_neg hc]
        split at h
        · cases h
        · rename_i hk
          rw [if_neg hk]
          refine .cons ?_ (ih h)
          rintro rfl
          simp_all

end Attempt
end PackageRecipe
