import PackageRecipe.Proofs.Token.Ending
import PackageRecipe.Proofs.Token.Literal

/-!
Words as tokens, and words before a quotation mark. Beside reading straight on stands a reader that
tries the letters of a prefix first: it takes one letter or two, looks for a mark, and falls back to
the word if there is none. The trial succeeds exactly where a prefix stands before a mark, and what
it has taken otherwise belongs to the word, so both find the same token, or the same fault.
-/
namespace PackageRecipe

namespace Lexeme

/-- The letters that make a prefix of two letters with `first`; none if no prefix begins with it. -/
def prefixPartners? (first : Char) : Option (List Char) :=
  if first ∈ ['r', 'R'] then some ['b', 'B', 'f', 'F']
  else if first ∈ ['b', 'B', 'f', 'F'] then some ['r', 'R']
  else if first ∈ ['u', 'U'] then some []
  else none

/-- The letters that are taken on trial, and what follows them. -/
def takeOnTrial (partners : List Char) (first : Char) : List Char → List Char × List Char
  | [] => ([first], [])
  | c :: cs => if c ∈ partners then ([first, c], cs) else ([first], c :: cs)

/-- The word that goes on from `letters`, and what follows it. -/
def wordFrom (letters rest : List Char) : Token × List Char :=
  let word := letters ++ rest.takeWhile Text.extendsName
  (⟨wordKind word, String.ofList word⟩, rest.dropWhile Text.extendsName)

/-- The string with these prefix letters and this first mark, and what follows it. -/
def stringFrom (letters : List Char) (mark : Char) (rest : List Char) :
    Except Fault (Token × List Char) := do
  let run := (State.quoted (.opened mark)).run rest
  let kind ← run.last.finish run.rest.head?
  return (⟨kind, String.ofList (letters ++ mark :: run.taken)⟩, run.rest)

end Lexeme

open Lexeme

/-- The first token of a text that begins with a letter `c`, found by trying a prefix first. -/
def Token.firstByTrial (c : Char) (cs : List Char) : Except Fault (Token × List Char) :=
  match prefixPartners? c with
  | none => .ok (wordFrom [c] cs)
  | some partners =>
    let (letters, rest) := takeOnTrial partners c cs
    match rest with
    | [] => .ok (wordFrom letters [])
    | mark :: after =>
      if isQuote mark then stringFrom letters mark after else .ok (wordFrom letters (mark :: after))

namespace Lexeme

variable {c mark : Char} {cs letters partners rest : List Char}

/-- The letters on trial are a prefix, and the text is not changed by the trial. -/
theorem takeOnTrial_spec (h : prefixPartners? c = some partners) (cs : List Char) :
    opensString (takeOnTrial partners c cs).1 = true ∧
      (takeOnTrial partners c cs).1 ++ (takeOnTrial partners c cs).2 = c :: cs := by
  have one : opensString [c] = true := by
    rw [opensString_iff]
    unfold prefixPartners? at h
    grind
  cases cs with
  | nil => exact ⟨one, rfl⟩
  | cons d ds =>
    rw [takeOnTrial]
    split
    · rename_i hd
      refine ⟨?_, rfl⟩
      rw [opensString_iff]
      unfold prefixPartners? at h
      grind
    · exact ⟨one, rfl⟩

/-- A prefix before a mark is found on trial. -/
theorem takeOnTrial_of_prefix (h : opensString letters = true) (hm : isQuote mark = true)
    (he : letters ++ mark :: rest = c :: cs) :
    ∃ partners, prefixPartners? c = some partners ∧
      takeOnTrial partners c cs = (letters, mark :: rest) := by
  have noLetter : mark ∉ ['b', 'B', 'f', 'F'] ∧ mark ∉ ['r', 'R'] := by
    rcases isQuote_iff.1 hm with rfl | rfl
    · decide
    · decide
  rcases opensString_iff.1 h with ⟨e, he', rfl⟩ | ⟨e, he', d, hd, rfl⟩ | ⟨e, he', d, hd, rfl⟩
  · obtain ⟨rfl, rfl⟩ := List.cons.inj he
    obtain ⟨partners, hp, hn⟩ : ∃ partners, prefixPartners? e = some partners ∧
        mark ∉ partners := by
      unfold prefixPartners?
      grind
    exact ⟨partners, hp, if_neg hn⟩
  · obtain ⟨rfl, rfl⟩ := List.cons.inj he
    exact ⟨_, if_pos he', if_pos hd⟩
  · obtain ⟨rfl, rfl⟩ := List.cons.inj he
    have hr : e ∉ ['r', 'R'] := by
      grind
    exact ⟨_, by rw [prefixPartners?, if_neg hr, if_pos he'], if_pos hd⟩

end Lexeme

namespace Token

variable {c mark : Char} {cs letters rest word : List Char} {t : Token}

/-- A prefix and the mark behind it begin a string. -/
theorem first_of_prefix (h : opensString letters = true) (hm : isQuote mark = true)
    (he : c :: cs = letters ++ mark :: rest) : first c cs = stringFrom letters mark rest := by
  obtain ⟨d, ds, rfl, hd, word⟩ := isWord_of_opensString h
  obtain ⟨rfl, rfl⟩ : c = d ∧ cs = ds ++ mark :: rest := by simpa using he
  have begun : State.ofChar c = .ok (.word [c]) := State.ofChar_of_opensName hd
  have through : (State.word [c]).after? (ds ++ [mark]) = some (.quoted (.opened mark)) := by
    rw [State.after?_append, State.after?_word word, Option.bind_some, State.after?_cons]
    simp [State.step, not_extendsName_of_isQuote hm, hm, h]
  have run := State.run_of_after? through rest
  have joined : ∀ taken, c :: (ds ++ [mark] ++ taken) = (c :: ds) ++ mark :: taken := by simp
  rw [List.append_assoc, List.singleton_append] at run
  rw [first, begun, stringFrom]
  simp only [bind, Except.bind, run, joined]

/-- A word ends before a character that neither goes on with it nor makes a string of it. -/
theorem first_of_word (h : IsWord word) (he : c :: cs = word ++ rest)
    (hr : ∀ d ∈ rest.head?, Text.extendsName d = false ∧
      (isQuote d = true → opensString word = false)) :
    first c cs = .ok (⟨wordKind word, String.ofList word⟩, rest) := by
  rw [first_eq_ok_iff_endsBefore]
  refine ⟨by rw [he, String.toList_ofList], endsBefore_of_word ?_ ?_ ?_⟩
  · rw [String.toList_ofList]
    exact State.ofText?_of_isWord h
  · rw [String.toList_ofList]
  · rw [String.toList_ofList]
    exact hr

/-- Where no prefix stands before a mark, the letters taken so far go on as a word. -/
theorem first_eq_wordFrom (hl : IsWord letters) (he : c :: cs = letters ++ rest)
    (hn : ∀ word mark after, word ++ mark :: after = c :: cs → isQuote mark = true →
      opensString word = false) : first c cs = .ok (wordFrom letters rest) := by
  have hw : IsWord (letters ++ rest.takeWhile Text.extendsName) := by
    obtain ⟨d, ds, rfl, hd, hds⟩ := hl
    refine ⟨d, _, List.cons_append, hd, fun e he => ?_⟩
    rcases List.mem_append.1 he with he | he
    · exact hds e he
    · exact List.mem_takeWhile_imp he
  have hs : c :: cs = letters ++ rest.takeWhile Text.extendsName ++
      rest.dropWhile Text.extendsName := by
    rw [he, List.append_assoc, List.takeWhile_append_dropWhile]
  refine first_of_word hw hs fun d hd => ⟨?_, fun hq => ?_⟩
  · have := List.head?_dropWhile_not Text.extendsName rest
    rw [hd] at this
    simpa using this
  · obtain ⟨after, ha⟩ := List.head?_eq_some_iff.1 hd
    rw [ha] at hs
    exact hn _ d after hs.symm hq

/-- Trying a prefix first finds the token, or the fault, that reading straight on finds. -/
theorem first_eq_firstByTrial (h : Text.opensName c = true) (cs : List Char) :
    first c cs = firstByTrial c cs := by
  cases hp : prefixPartners? c with
  | none =>
    rw [firstByTrial, hp]
    refine first_eq_wordFrom ⟨c, [], rfl, h, nofun⟩ rfl fun word mark after he hm => ?_
    by_contra hw
    obtain ⟨partners, hs, -⟩ := takeOnTrial_of_prefix (by simpa using hw) hm he
    rw [hp] at hs
    cases hs
  | some partners =>
    obtain ⟨ho, he⟩ := takeOnTrial_spec hp cs
    rw [firstByTrial, hp]
    cases ht : takeOnTrial partners c cs with
    | mk letters rest =>
      rw [ht] at ho he
      -- unless a mark comes next, no other letters are a prefix before one
      have word : (∀ mark ∈ rest.head?, isQuote mark = false) →
          first c cs = .ok (wordFrom letters rest) := by
        intro hr
        refine first_eq_wordFrom (isWord_of_opensString ho) he.symm
          fun word mark after hword hm => ?_
        by_contra hw
        obtain ⟨others, hs, htrial⟩ := takeOnTrial_of_prefix (by simpa using hw) hm hword
        obtain rfl : partners = others := Option.some.inj (hp.symm.trans hs)
        rw [ht] at htrial
        obtain ⟨-, rfl⟩ := Prod.mk.inj htrial
        rw [hr mark rfl] at hm
        cases hm
      cases rest with
      | nil =>
        simp only [ht]
        exact word nofun
      | cons mark after =>
        simp only [ht]
        split
        · rename_i hm
          exact first_of_prefix ho hm he.symm
        · rename_i hm
          exact word (by simpa using hm)

/-- What begins as a string and is a token is a string. -/
theorem isString_of_stringFrom (h : stringFrom letters mark cs = .ok (t, rest)) :
    t.kind = .string ∧ letters ++ [mark] <+: t.text.toList := by
  obtain ⟨string, hs⟩ := State.after?_quoted (State.after?_run (.quoted (.opened mark)) cs)
  rw [stringFrom, hs] at h
  cases hf : string.fault? ((State.quoted (.opened mark)).run cs).rest.head? with
  | some fault => simp [State.finish, hf, bind, Except.bind] at h
  | none =>
    simp only [State.finish, hf, bind, Except.bind, pure, Except.pure, Except.ok.injEq,
      Prod.mk.injEq] at h
    obtain ⟨rfl, -⟩ := h
    refine ⟨rfl, ((State.quoted (.opened mark)).run cs).taken, ?_⟩
    rw [String.toList_ofList, List.append_assoc, List.singleton_append]

/-- The first token of a source is the first token of its text. -/
theorem exists_first_of_ofSource {source : String} {ts : List Token}
    (h : Token.ofSource source = .ok ts) (hs : source.toList = c :: cs) :
    ∃ t us, ts = t :: us ∧ first c cs = .ok (t, (sourceText us).toList) := by
  obtain ⟨rfl, hl⟩ := Token.ofSource_eq_ok_iff.1 h
  cases ts with
  | nil => cases hs
  | cons t us =>
    refine ⟨t, us, rfl, first_eq_ok_iff_endsBefore.2 ⟨?_, ?_⟩⟩
    · rw [← hs, sourceText_cons, String.toList_append]
    · simpa using hl.1

end Token

/-- The first token of a text that begins with a word and goes on, if at all, with a character that
extends no name. Before a mark a prefix becomes a string; any other word, and every word before
anything else, is a token by itself. Trying a prefix first finds the same. -/
theorem ofSource_word {word text : String} {ts : List Token} (hw : IsWord word.toList)
    (ht : ∀ c ∈ text.toList.head?, Text.extendsName c = false)
    (h : Token.ofSource (word ++ text) = .ok ts) :
    ∃ t us, ts = t :: us ∧
      ((∀ q ∈ text.toList.head?, isQuote q = true → opensString word.toList = false) →
        t = ⟨if word ∈ reservedWords then .keyword else .identifier, word⟩) ∧
      (∀ q ∈ text.toList.head?, isQuote q = true → opensString word.toList = true →
        t.kind = .string ∧ word.toList ++ [q] <+: t.text.toList) ∧
      ∀ c cs, (word ++ text).toList = c :: cs →
        Token.firstByTrial c cs = .ok (t, (sourceText us).toList) := by
  obtain ⟨c, body, hc, ho, -⟩ := id hw
  have hs : (word ++ text).toList = c :: (body ++ text.toList) := by
    rw [String.toList_append, hc, List.cons_append]
  have parts : c :: (body ++ text.toList) = word.toList ++ text.toList := by
    rw [hc, List.cons_append]
  obtain ⟨t, us, rfl, hfirst⟩ := Token.exists_first_of_ofSource h hs
  refine ⟨t, us, rfl, fun hplain => ?_, fun q hq hm hopens => ?_, fun d ds hd => ?_⟩
  · rw [Token.first_of_word hw parts fun d hd => ⟨ht d hd, hplain d hd⟩] at hfirst
    obtain ⟨rfl, -⟩ := Prod.mk.inj (Except.ok.inj hfirst)
    rw [wordKind, String.ofList_toList]
  · obtain ⟨after, ha⟩ := List.head?_eq_some_iff.1 hq
    rw [ha] at parts hfirst
    rw [Token.first_of_prefix hopens hm parts] at hfirst
    exact Token.isString_of_stringFrom hfirst
  · rw [hs] at hd
    obtain ⟨rfl, rfl⟩ := List.cons.inj hd
    rw [← Token.first_eq_firstByTrial ho, hfirst]

/-- A reserved word that begins like a prefix stands before a mark, and a prefix of two letters. -/
theorem ofSource_word_marks :
    (∃ t us, Token.ofSource "raise'x'" = .ok (t :: us) ∧ t = ⟨.keyword, "raise"⟩ ∧
        Token.firstByTrial 'r' "aise'x'".toList = .ok (t, (sourceText us).toList)) ∧
      ∃ t us, Token.ofSource "fR'''x''' y" = .ok (t :: us) ∧ t.kind = .string ∧
        "fR'".toList <+: t.text.toList ∧
        Token.firstByTrial 'f' "R'''x''' y".toList = .ok (t, (sourceText us).toList) := by
  constructor
  · have h : Token.ofSource "raise'x'" = .ok [⟨.keyword, "raise"⟩, ⟨.string, "'x'"⟩] := by cbv
    have hw : IsWord "raise".toList :=
      ⟨'r', "aise".toList, rfl, by decide, by simp [Text.extendsName]⟩
    obtain ⟨t, us, hts, hplain, -, htrial⟩ :=
      @ofSource_word "raise" "'x'" _ hw (by simp [Text.extendsName]) h
    exact ⟨t, us, by rw [h, hts], hplain fun _ _ _ => by decide, htrial _ _ rfl⟩
  · have h : Token.ofSource "fR'''x''' y" =
        .ok [⟨.string, "fR'''x'''"⟩, ⟨.whitespace, " "⟩, ⟨.identifier, "y"⟩] := by cbv
    have hw : IsWord "fR".toList := ⟨'f', "R".toList, rfl, by decide, by simp [Text.extendsName]⟩
    obtain ⟨t, us, hts, -, hstring, htrial⟩ :=
      @ofSource_word "fR" "'''x''' y" _ hw (by simp [Text.extendsName]) h
    obtain ⟨hk, hp⟩ := hstring '\'' rfl rfl (by decide)
    exact ⟨t, us, by rw [h, hts], hk, hp, htrial _ _ rfl⟩

end PackageRecipe
