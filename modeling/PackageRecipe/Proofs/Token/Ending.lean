import PackageRecipe.Proofs.Token.Shape

/-!
Tokens whose text alone says before which characters they end. A word ends before a character that
neither goes on with it nor quotes, a sign before one that makes no longer sign of it.
-/
namespace PackageRecipe

open Lexeme

theorem signKind?_eq_none_iff {text : List Char} :
    signKind? text = none ↔ text ∉ (operatorSigns ++ delimiterSigns).map String.toList := by
  have mem : ∀ signs : List String,
      String.ofList text ∈ signs ↔ text ∈ signs.map String.toList := by
    intro signs
    rw [List.mem_map]
    constructor
    · intro h
      exact ⟨_, h, String.toList_ofList⟩
    · intro h
      obtain ⟨sign, hs, rfl⟩ := h
      rwa [String.ofList_toList]
  unfold signKind?
  rw [List.map_append, List.mem_append, ← mem, ← mem]
  by_cases ho : String.ofList text ∈ operatorSigns
  · simp [ho]
  · by_cases hd : String.ofList text ∈ delimiterSigns
    · simp [ho, hd]
    · simp [ho, hd]

namespace Token

variable {t : Token}

/-- A sign ends before a character with which it is no longer sign. -/
theorem endsBefore_of_sign {mark : Char} (ht : t.text.toList = [mark])
    (ho : State.ofChar mark = .ok (.sign [mark] t.kind)) (hm : mark ≠ '.') {rest : List Char}
    (hr : ∀ c ∈ rest.head?, signKind? [mark, c] = none) : t.EndsBefore rest := by
  refine ⟨.sign [mark] t.kind, ?_, rfl, fun c hc => ?_⟩
  · rw [ht, State.ofText?_cons_eq_some_iff]
    exact ⟨_, ho, rfl⟩
  · simp [State.step, extendSign, hr c hc, hm]

/-- Brackets and commas are part of no longer sign. -/
theorem endsBefore_of_mark {mark : Char} (hm : mark ∈ ['(', ')', ','])
    (rest : List Char) : (⟨.delimiter, String.ofList [mark]⟩ : Token).EndsBefore rest := by
  have ho : State.ofChar mark = .ok (.sign [mark] .delimiter) := by
    simp only [List.mem_cons, List.not_mem_nil, or_false] at hm
    rcases hm with rfl | rfl | rfl <;> rfl
  have hp : mark ≠ '.' := by
    rintro rfl
    revert hm
    decide
  refine endsBefore_of_sign String.toList_ofList ho hp fun c _ => ?_
  rw [signKind?_eq_none_iff]
  have none_longer : ∀ sign ∈ (operatorSigns ++ delimiterSigns).map String.toList,
      (sign.head?.any fun c => c ∈ ['(', ')', ',']) = true → sign.length = 1 := by decide
  intro hs
  have hl : [mark, c].length = 1 := none_longer _ hs (decide_eq_true hm)
  cases hl

theorem endsBefore_assignment {c : Char} (hc : c ≠ '=') (cs : List Char) :
    (⟨.delimiter, "="⟩ : Token).EndsBefore (c :: cs) := by
  have ho : State.ofChar '=' = .ok (.sign ['='] .delimiter) := rfl
  refine endsBefore_of_sign rfl ho (by decide) fun d hd => ?_
  obtain rfl : c = d := Option.some.inj hd
  rw [signKind?_eq_none_iff]
  have doubled : ∀ sign ∈ (operatorSigns ++ delimiterSigns).map String.toList,
      sign.head? = some '=' → sign.length = 2 → sign = ['=', '='] := by decide
  intro hs
  have he : ['=', c] = ['=', '='] := doubled _ hs rfl rfl
  exact hc (List.cons.inj (List.cons.inj he).2).1

theorem endsBefore_colon (cs : List Char) :
    (⟨.delimiter, ":"⟩ : Token).EndsBefore ('\n' :: cs) := by
  have ho : State.ofChar ':' = .ok (.sign [':'] .delimiter) := rfl
  refine endsBefore_of_sign rfl ho (by decide) fun d hd => ?_
  obtain rfl : '\n' = d := Option.some.inj hd
  decide

/-- A word ends before a character that neither goes on with it nor makes a string of it. -/
theorem endsBefore_of_word (hw : State.ofText? t.text.toList = some (.word t.text.toList.reverse))
    (hk : wordKind t.text.toList = t.kind) {rest : List Char}
    (hr : ∀ c ∈ rest.head?, Text.extendsName c = false ∧
      (isQuote c = true → opensString t.text.toList = false)) : t.EndsBefore rest := by
  refine ⟨_, hw, ?_, fun c hc => ?_⟩
  · rw [State.finish, List.reverse_reverse, hk]
  · obtain ⟨he, ho⟩ := hr c hc
    by_cases hq : isQuote c = true
    · simp [State.step, he, ho hq]
    · simp [State.step, he, hq]

/-- A token that is a run of characters of one class ends before every other character. -/
theorem endsBefore_of_run {state : State} {p : Char → Bool}
    (ho : ∀ c, p c = true → State.ofChar c = .ok state)
    (hs : ∀ c, state.step c = if p c then some state else none)
    (hf : state.finish none = .ok t.kind) (hn : t.text.toList ≠ [])
    (hp : ∀ c ∈ t.text.toList, p c = true) {rest : List Char}
    (hr : ∀ c ∈ rest.head?, p c = false) : t.EndsBefore rest := by
  have stays : ∀ cs : List Char, (∀ c ∈ cs, p c = true) → state.after? cs = some state := by
    intro cs hcs
    induction cs with
    | nil => rfl
    | cons c cs ih =>
      obtain ⟨hc, hcs⟩ := List.forall_mem_cons.1 hcs
      rw [State.after?_cons, hs, if_pos hc]
      exact ih hcs
  refine ⟨state, ?_, hf, fun c hc => by rw [hs, if_neg (by simp [hr c hc])]⟩
  obtain ⟨c, cs, ht⟩ := List.exists_cons_of_ne_nil hn
  rw [ht] at hp ⊢
  obtain ⟨hc, hcs⟩ := List.forall_mem_cons.1 hp
  exact State.ofText?_cons_eq_some_iff.2 ⟨state, ho c hc, stays cs hcs⟩

/-- Spaces end before what is no space. -/
theorem endsBefore_of_spaces (hk : t.kind = .whitespace) (hn : t.text.toList ≠ [])
    (hs : ∀ c ∈ t.text.toList, isSpace c = true) {rest : List Char}
    (hr : ∀ c ∈ rest.head?, isSpace c = false) : t.EndsBefore rest :=
  endsBefore_of_run (fun c hc => by rw [State.ofChar, if_pos hc]) (fun _ => rfl) (by rw [hk]; rfl)
    hn hs hr

/-- Line breaks end before what is no line break. -/
theorem endsBefore_of_lineBreaks (hk : t.kind = .newline) (hn : t.text.toList ≠ [])
    (hb : ∀ c ∈ t.text.toList, isLineBreak c = true) {rest : List Char}
    (hr : ∀ c ∈ rest.head?, isLineBreak c = false) : t.EndsBefore rest := by
  have step : ∀ c, State.lineBreak.step c = if isLineBreak c then some .lineBreak else none :=
    fun _ => rfl
  refine endsBefore_of_run (fun c hc => ?_) step (by rw [hk]; rfl) hn hb hr
  have hs : isSpace c = false := by
    rcases isLineBreak_iff.1 hc with rfl | rfl <;> decide
  rw [State.ofChar, if_neg (by simp [hs]), if_pos hc]

/-- A space ends before what is no blank. -/
theorem endsBefore_space {c : Char} (hc : isSpace c = false) (cs : List Char) :
    (⟨.whitespace, " "⟩ : Token).EndsBefore (c :: cs) :=
  endsBefore_of_spaces rfl (by decide) (by simp [isSpace]) (by simpa using hc)

end Token
end PackageRecipe
