import Mathlib
import PackageRecipe.Proofs.Lexeme.Extent
import PackageRecipe.Token.Reading

/-!
Which token sequences a text is read as. `Lexed tokens rest` says of every token that it ends where
its text does, if the others and then `rest` follow it. Reading finds a sequence exactly if the
sequence is so divided and its texts join to the source; in particular no character is lost.
-/
namespace PackageRecipe

open Lexeme

/-- The token ends where its text does if `rest` follows. -/
def Token.EndsBefore (rest : List Char) (t : Token) : Prop :=
  ∃ last, State.ofText? t.text.toList = some last ∧ last.finish none = .ok t.kind ∧
    last.StopsBefore rest

/-- The tokens are divided where reading divides their texts, if `rest` follows them. -/
def Lexed : List Token → List Char → Prop
  | [], _ => True
  | t :: ts, rest => t.EndsBefore ((sourceText ts).toList ++ rest) ∧ Lexed ts rest

@[simp] theorem lexed_nil (rest : List Char) : Lexed [] rest := trivial

theorem lexed_cons {t : Token} {ts : List Token} {rest : List Char} :
    Lexed (t :: ts) rest ↔ t.EndsBefore ((sourceText ts).toList ++ rest) ∧ Lexed ts rest := Iff.rfl

theorem lexed_append {ts us : List Token} {rest : List Char} :
    Lexed (ts ++ us) rest ↔ Lexed ts ((sourceText us).toList ++ rest) ∧ Lexed us rest := by
  induction ts with
  | nil => simp
  | cons t ts ih =>
    rw [List.cons_append, lexed_cons, lexed_cons, ih, sourceText_append, String.toList_append,
      List.append_assoc, and_assoc]

/-- What follows a token matters by its first character only, and less if nothing follows. -/
theorem Token.EndsBefore.of_head? {t : Token} {rest other : List Char} (h : t.EndsBefore rest)
    (hh : ∀ c ∈ other.head?, rest.head? = some c) : t.EndsBefore other := by
  obtain ⟨last, hl, hf, hs⟩ := h
  exact ⟨last, hl, hf, fun c hc => hs c (hh c hc)⟩

theorem Token.EndsBefore.text_ne_nil {t : Token} {rest : List Char} (h : t.EndsBefore rest) :
    t.text.toList ≠ [] := by
  obtain ⟨last, hl, -⟩ := h
  intro hn
  rw [hn] at hl
  simp [State.ofText?] at hl

theorem Lexed.of_head? {ts : List Token} {rest other : List Char} (h : Lexed ts rest)
    (hh : ∀ c ∈ other.head?, rest.head? = some c) : Lexed ts other := by
  induction ts with
  | nil => trivial
  | cons t ts ih =>
    refine ⟨h.1.of_head? ?_, ih h.2⟩
    cases ht : (sourceText ts).toList with
    | nil => exact hh
    | cons d ds => simp

theorem Lexed.text_ne_nil {ts : List Token} {rest : List Char} (h : Lexed ts rest) :
    ∀ t ∈ ts, t.text.toList ≠ [] := by
  induction ts with
  | nil => simp
  | cons u us ih =>
    intro t ht
    rcases List.mem_cons.1 ht with rfl | ht
    · exact h.1.text_ne_nil
    · exact ih h.2 t ht

theorem Lexed.exists_endsBefore {ts : List Token} {rest : List Char} (h : Lexed ts rest) :
    ∀ t ∈ ts, ∃ after, t.EndsBefore after := by
  induction ts with
  | nil => nofun
  | cons t ts ih => exact List.forall_mem_cons.2 ⟨⟨_, h.1⟩, ih h.2⟩

/-- The first token of a text is the one that ends before what is left. -/
theorem Token.first_eq_ok_iff_endsBefore {c : Char} {cs rest : List Char} {t : Token} :
    Token.first c cs = .ok (t, rest) ↔ c :: cs = t.text.toList ++ rest ∧ t.EndsBefore rest := by
  rw [Token.first_eq_ok_iff]
  constructor
  · intro h
    obtain ⟨state, kind, hc, hk, rfl, rfl⟩ := h
    refine ⟨?_, (state.run cs).last, ?_, State.finish_eq_ok_iff.1 hk, state.stopsBefore_run cs⟩
    · rw [String.toList_ofList, List.cons_append, state.run_taken_append_rest cs]
    · rw [String.toList_ofList, State.ofText?_cons_eq_some_iff]
      exact ⟨state, hc, state.after?_run cs⟩
  · intro h
    obtain ⟨he, last, hl, hf, hs⟩ := h
    cases ht : t.text.toList with
    | nil => simp [ht, State.ofText?] at hl
    | cons d ds =>
      rw [ht, List.cons_append, List.cons.injEq] at he
      obtain ⟨rfl, rfl⟩ := he
      rw [ht] at hl
      obtain ⟨state, hc, ha⟩ := State.ofText?_cons_eq_some_iff.1 hl
      have hr := State.run_append ha hs
      refine ⟨state, t.kind, hc, ?_, ?_, by rw [hr]⟩
      · rw [hr]
        exact State.finish_eq_ok_iff.2 hf
      · rw [hr, ← ht, String.ofList_toList]

/-- Tokens in front of what has been read. -/
def Reading.prepend (ts : List Token) (r : Reading) : Reading := { r with tokens := ts ++ r.tokens }

theorem Reading.ofChars_cons {c : Char} {cs rest : List Char} {t : Token}
    (h : Token.first c cs = .ok (t, rest)) :
    Reading.ofChars (c :: cs) = (Reading.ofChars rest).cons t := by
  rw [Reading.ofChars]
  split
  · rename_i he
    rw [h] at he
    cases he
  · rename_i he
    rw [h] at he
    cases he
    rfl

theorem Reading.ofChars_of_error {c : Char} {cs : List Char} {fault : Fault}
    (h : Token.first c cs = .error fault) : Reading.ofChars (c :: cs) = ⟨[], some fault⟩ := by
  rw [Reading.ofChars]
  split
  · rename_i he
    rw [h] at he
    cases he
    rfl
  · rename_i he
    rw [h] at he
    cases he

/-- Reading takes off a sequence that is divided as it would divide it, and goes on behind it. -/
theorem Reading.ofChars_append {ts : List Token} {rest : List Char} (h : Lexed ts rest) :
    Reading.ofChars ((sourceText ts).toList ++ rest) = (Reading.ofChars rest).prepend ts := by
  induction ts with
  | nil => rfl
  | cons t ts ih =>
    rw [sourceText_cons, String.toList_append, List.append_assoc]
    cases ht : t.text.toList with
    | nil => exact absurd ht h.1.text_ne_nil
    | cons c cs =>
      rw [List.cons_append, Reading.ofChars_cons (Token.first_eq_ok_iff_endsBefore.2
        ⟨by rw [ht, List.cons_append], h.1⟩), ih h.2]
      rfl

/-- The tokens of a reading are divided as their texts are, and only a fault leaves text behind. -/
theorem Reading.lexed_ofChars (cs : List Char) :
    ∃ rest, cs = (sourceText (Reading.ofChars cs).tokens).toList ++ rest ∧
      Lexed (Reading.ofChars cs).tokens rest ∧ ((Reading.ofChars cs).fault = none → rest = []) := by
  induction cs using Reading.ofChars.induct with
  | case1 => exact ⟨[], by rw [Reading.ofChars]; simp⟩
  | case2 c cs fault h => exact ⟨c :: cs, by simp [Reading.ofChars_of_error h]⟩
  | case3 c cs t rest h ih =>
    obtain ⟨last, hcs, hl, hf⟩ := ih
    obtain ⟨he, ht⟩ := Token.first_eq_ok_iff_endsBefore.1 h
    rw [Reading.ofChars_cons h]
    refine ⟨last, ?_, ⟨?_, hl⟩, hf⟩
    · rw [he, Reading.cons, sourceText_cons, String.toList_append, List.append_assoc, ← hcs]
    · rwa [← hcs]

theorem Token.ofSource_eq_ok_iff_fault {source : String} {ts : List Token} :
    Token.ofSource source = .ok ts ↔ Reading.ofChars source.toList = ⟨ts, none⟩ := by
  unfold Token.ofSource
  cases hr : Reading.ofChars source.toList with
  | mk tokens fault => cases fault <;> simp

/-- A source is read as a sequence of tokens exactly if their texts join to it and are divided as
reading divides them. -/
theorem Token.ofSource_eq_ok_iff {source : String} {ts : List Token} :
    Token.ofSource source = .ok ts ↔ sourceText ts = source ∧ Lexed ts [] := by
  rw [Token.ofSource_eq_ok_iff_fault]
  constructor
  · intro h
    obtain ⟨rest, hs, hl, hf⟩ := Reading.lexed_ofChars source.toList
    rw [h] at hs hl hf
    obtain rfl := hf rfl
    exact ⟨String.toList_injective (by rw [hs, List.append_nil]), hl⟩
  · intro h
    obtain ⟨rfl, hl⟩ := h
    have hr := Reading.ofChars_append hl
    rw [List.append_nil] at hr
    rw [hr, Reading.ofChars]
    simp [Reading.prepend]

/-- A source is one token exactly if its text leads to a state in which the lexeme may end. -/
theorem Token.ofSource_eq_singleton_iff {source : String} {t : Token} :
    Token.ofSource source = .ok [t] ↔ t.text = source ∧ ∃ last,
      State.ofText? source.toList = some last ∧ last.finish none = .ok t.kind := by
  rw [Token.ofSource_eq_ok_iff, lexed_cons, sourceText_cons, sourceText_nil, String.append_empty]
  constructor
  · rintro ⟨rfl, ⟨last, hl, hf, -⟩, -⟩
    exact ⟨rfl, last, hl, hf⟩
  · rintro ⟨rfl, last, hl, hf⟩
    exact ⟨rfl, ⟨last, hl, hf, State.stopsBefore_nil last⟩, trivial⟩

/-- No character of a source is lost or moved, and no token is empty. -/
theorem ofSource_lossless {source : String} {ts : List Token}
    (h : Token.ofSource source = .ok ts) :
    sourceText ts = source ∧ ∀ t ∈ ts, t.text ≠ "" := by
  obtain ⟨hs, hl⟩ := Token.ofSource_eq_ok_iff.1 h
  refine ⟨hs, fun t ht he => hl.text_ne_nil t ht ?_⟩
  rw [he]
  rfl

/-- Prefixed and long strings, an escape, a continued line, a fraction and a comment. -/
theorem ofSource_lossless_mixed :
    let tokens : List Token := [⟨.identifier, "x"⟩, ⟨.delimiter, "="⟩, ⟨.string, "rb'\\''"⟩,
      ⟨.whitespace, "\\\n"⟩, ⟨.string, "\"\"\"a\n\"\"\""⟩, ⟨.operator, "**"⟩, ⟨.number, ".5e3"⟩,
      ⟨.comment, "# é"⟩]
    sourceText tokens = "x=rb'\\''\\\n\"\"\"a\n\"\"\"**.5e3# é" ∧ ∀ t ∈ tokens, t.text ≠ "" :=
  ofSource_lossless (by cbv)

end PackageRecipe
