import PackageRecipe.Proofs.Token.Literal

/-!
The contents of any token, also of one that no text has. Whatever the mark is, three of them at
either end are cut off as three bytes: three characters if the mark takes one byte, one character if
it takes three, and part of a character otherwise. Marks of one byte may overlap in a body of fewer
than six bytes, which is then taken for a short one.
-/
namespace PackageRecipe

theorem byteLength_replicate (n : Nat) (c : Char) :
    byteLength (List.replicate n c) = n * c.utf8Size := by
  induction n with
  | zero => simp [byteLength]
  | succ n ih => rw [List.replicate_succ, byteLength, ih, Nat.succ_mul, Nat.add_comm]

namespace IsTripled

variable {mark : Char} {body : List Char}

theorem three_le_length (h : IsTripled mark body) : 3 ≤ body.length := h.1.length_le

/-- Three marks of more than one byte are six bytes. -/
theorem six_le_byteLength (h : IsTripled mark body) (hm : 2 ≤ mark.utf8Size) :
    6 ≤ byteLength body := by
  obtain ⟨tail, rfl⟩ := h.1
  rw [byteLength_append]
  simp only [byteLength]
  omega

theorem head? (h : IsTripled mark body) : body.head? = some mark := by
  obtain ⟨tail, rfl⟩ := h.1
  rfl

theorem getLast? (h : IsTripled mark body) : body.getLast? = some mark := by
  obtain ⟨front, rfl⟩ := h.2
  simp

/-- The first mark and the last one do not overlap. -/
theorem exists_between (h : IsTripled mark body) : ∃ inner, body = mark :: inner ++ [mark] := by
  have hlen := h.three_le_length
  obtain ⟨cs, rfl⟩ := List.head?_eq_some_iff.1 h.head?
  obtain ⟨front, hf⟩ := List.getLast?_eq_some_iff.1 h.getLast?
  cases front with
  | nil =>
    obtain rfl : cs = [] := (List.cons.inj hf).2
    rw [List.length_singleton] at hlen
    omega
  | cons c inner =>
    obtain ⟨rfl, rfl⟩ := List.cons.inj hf
    exact ⟨inner, rfl⟩

/-- In six bytes or more, three marks of one byte at either end do not overlap. -/
theorem exists_inner (h : IsTripled mark body) (hm : mark.utf8Size = 1)
    (hb : 6 ≤ byteLength body) :
    ∃ inner, body = [mark, mark, mark] ++ inner ++ [mark, mark, mark] := by
  obtain ⟨⟨tail, rfl⟩, hs⟩ := h
  by_cases hl : 3 ≤ tail.length
  · obtain ⟨inner, rfl⟩ := List.suffix_of_suffix_length_le hs (List.suffix_append _ tail) hl
    exact ⟨inner, (List.append_assoc _ _ _).symm⟩
  · -- the body would be marks only, and five at most
    have ht : tail <:+ [mark, mark, mark] :=
      List.suffix_of_suffix_length_le (List.suffix_append _ tail) hs
        (by rw [List.length_cons, List.length_cons, List.length_singleton]; omega)
    have hr : tail = List.replicate tail.length mark :=
      List.eq_replicate_iff.2 ⟨rfl, fun c hc => by simpa using ht.subset hc⟩
    rw [byteLength_append, hr, byteLength_replicate, hm] at hb
    simp only [byteLength, hm] at hb
    omega

end IsTripled

section Body

variable {mark : Char} {body : List Char}

/-- Three bytes from the beginning a mark of two or four bytes is split. -/
theorem trimBytes?_split (h : mark.utf8Size = 2 ∨ mark.utf8Size = 4) (cs : List Char) :
    trimBytes? 3 (mark :: mark :: cs) = none := by
  have front : dropBytes? 3 (mark :: mark :: cs) = none := by
    rcases h with h | h
    · simp [dropBytes?, h]
    · simp [dropBytes?, h]
  rw [trimBytes?, front]
  rfl

theorem bodyContents_of_isLong (h : isLong mark body = true) :
    bodyContents body = (trimBytes? 3 body).elim (.error .splitCharacter) .ok := by
  obtain ⟨cs, rfl⟩ := List.head?_eq_some_iff.1 (isLong_iff.1 h).2.head?
  rw [bodyContents, if_pos h]
  cases trimBytes? 3 (mark :: cs) with
  | none => rfl
  | some inner => rfl

/-- Marks of one byte are cut off by threes where there are six bytes for them. -/
theorem bodyContents_three (h : IsTripled mark body) (hm : mark.utf8Size = 1)
    (hb : 6 ≤ byteLength body) : bodyContents body = .ok ((body.drop 3).rdrop 3) := by
  rw [bodyContents_of_isLong (isLong_iff.2 ⟨hb, h⟩)]
  obtain ⟨inner, rfl⟩ := h.exists_inner hm hb
  have front : ([mark, mark, mark] ++ inner ++ [mark, mark, mark]).drop 3 =
      inner ++ [mark, mark, mark] := rfl
  have back : (inner ++ [mark, mark, mark]).rdrop 3 = inner := by simp [List.rdrop]
  have marks : byteLength [mark, mark, mark] = 3 := by simp [byteLength, hm]
  rw [trimBytes?_append marks marks, front, back, Option.elim_some]

/-- Three marks of two or four bytes cannot be cut off. -/
theorem bodyContents_split (h : IsTripled mark body) (hm : mark.utf8Size = 2 ∨ mark.utf8Size = 4) :
    bodyContents body = .error .splitCharacter := by
  rw [bodyContents_of_isLong (isLong_iff.2 ⟨h.six_le_byteLength (by omega), h⟩)]
  obtain ⟨tail, rfl⟩ := h.1
  rw [List.cons_append, List.cons_append, trimBytes?_split hm, Option.elim_none]

/-- In every other case one character goes at either end, if both are the mark. -/
theorem bodyContents_single (h : body.head? = some mark)
    (hsplit : ¬ (IsTripled mark body ∧ (mark.utf8Size = 2 ∨ mark.utf8Size = 4)))
    (hthree : ¬ (mark.utf8Size = 1 ∧ 6 ≤ byteLength body ∧ IsTripled mark body)) :
    bodyContents body =
      if 2 ≤ body.length ∧ body.getLast? = some mark then .ok body.tail.dropLast
      else .error .notQuoted := by
  by_cases hlong : isLong mark body = true
  · obtain ⟨hb, ht⟩ := isLong_iff.1 hlong
    have hm : mark.utf8Size = 3 := by
      have hpos := mark.utf8Size_pos
      have hle := mark.utf8Size_le_four
      have hone : mark.utf8Size ≠ 1 := fun hm => hthree ⟨hm, hb, ht⟩
      have htwo : ¬ (mark.utf8Size = 2 ∨ mark.utf8Size = 4) := fun hm => hsplit ⟨ht, hm⟩
      omega
    have hlen := ht.three_le_length
    rw [if_pos ⟨by omega, ht.getLast?⟩, bodyContents_of_isLong hlong]
    obtain ⟨inner, rfl⟩ := ht.exists_between
    have one : byteLength [mark] = 3 := by simp [byteLength, hm]
    have cut : trimBytes? 3 (mark :: inner ++ [mark]) = some inner :=
      trimBytes?_append one one inner
    rw [cut, Option.elim_some, List.cons_append, List.tail_cons, List.dropLast_concat]
  · obtain ⟨cs, rfl⟩ := List.head?_eq_some_iff.1 h
    rw [bodyContents, if_neg hlong]
    cases cs with
    | nil => simp
    | cons c cs => simp

theorem bodyContents_eq_split_iff : bodyContents body = .error .splitCharacter ↔
    ∃ mark, IsTripled mark body ∧ (mark.utf8Size = 2 ∨ mark.utf8Size = 4) := by
  constructor
  · intro h
    by_contra hn
    cases hb : body with
    | nil =>
      rw [hb] at h
      cases h
    | cons mark cs =>
      have hh : body.head? = some mark := by
        rw [hb]
        rfl
      by_cases hthree : mark.utf8Size = 1 ∧ 6 ≤ byteLength body ∧ IsTripled mark body
      · rw [bodyContents_three hthree.2.2 hthree.1 hthree.2.1] at h
        cases h
      · rw [bodyContents_single hh (fun hs => hn ⟨mark, hs⟩) hthree] at h
        split at h
        · cases h
        · cases h
  · rintro ⟨mark, h, hm⟩
    exact bodyContents_split h hm

end Body

namespace Token

variable {t : Token}

theorem contents_of_string (h : t.kind = .string) :
    t.contents = (bodyContents (literalBody t.text.toList)).map String.ofList := if_pos h

theorem contents_of_not_string (h : t.kind ≠ .string) : t.contents = .error .notQuoted := if_neg h

theorem contents_eq_split_iff : t.contents = .error .splitCharacter ↔
    t.kind = .string ∧ bodyContents (literalBody t.text.toList) = .error .splitCharacter := by
  by_cases h : t.kind = .string
  · rw [contents_of_string h]
    cases bodyContents (literalBody t.text.toList) with
    | error fault => simp [h, Except.map]
    | ok inner => simp [Except.map]
  · rw [contents_of_not_string h]
    simp [h]

/-- What the contents of a token are. Its body is the text without the letters that it begins with;
the mark is the first character of the body. -/
theorem contents_cases (t : Token) :
    let body := literalBody t.text.toList
    (t.contents = .error .splitCharacter ↔ t.kind = .string ∧
      ∃ mark, IsTripled mark body ∧ (mark.utf8Size = 2 ∨ mark.utf8Size = 4)) ∧
    (t.kind ≠ .string ∨ body = [] → t.contents = .error .notQuoted) ∧
    ∀ mark, t.kind = .string → body.head? = some mark →
      (mark.utf8Size = 1 ∧ 6 ≤ byteLength body ∧ IsTripled mark body →
        t.contents = .ok (String.ofList ((body.drop 3).rdrop 3))) ∧
      (¬ (IsTripled mark body ∧ (mark.utf8Size = 2 ∨ mark.utf8Size = 4)) →
        ¬ (mark.utf8Size = 1 ∧ 6 ≤ byteLength body ∧ IsTripled mark body) →
        t.contents = if 2 ≤ body.length ∧ body.getLast? = some mark then
          .ok (String.ofList body.tail.dropLast) else .error .notQuoted) := by
  intro body
  refine ⟨?_, ?_, fun mark hk hh => ⟨?_, fun hsplit hthree => ?_⟩⟩
  · rw [contents_eq_split_iff, bodyContents_eq_split_iff]
  · intro h
    by_cases hk : t.kind = .string
    · have hb : literalBody t.text.toList = [] := h.resolve_left (not_not_intro hk)
      rw [contents_of_string hk, hb]
      rfl
    · exact contents_of_not_string hk
  · rintro ⟨hm, hb, ht⟩
    rw [contents_of_string hk, bodyContents_three ht hm hb]
    rfl
  · rw [contents_of_string hk, bodyContents_single hh hsplit hthree]
    split
    · rfl
    · rfl

/-- Marks of two bytes and of three, five marks of one byte, six behind a letter, and no body. -/
theorem contents_cases_marks :
    contents ⟨.string, "rbééé"⟩ = .error .splitCharacter ∧
      contents ⟨.string, "€€€"⟩ = .ok "€" ∧
      contents ⟨.string, "'''''"⟩ = .ok "'''" ∧
      contents ⟨.string, "u''''''"⟩ = .ok "" ∧
      contents ⟨.string, "abc"⟩ = .error .notQuoted :=
  ⟨(contents_cases ⟨.string, "rbééé"⟩).1.2 ⟨rfl, 'é', by decide, by decide⟩,
    ((contents_cases ⟨.string, "€€€"⟩).2.2 '€' rfl rfl).2 (by decide) (by decide),
    ((contents_cases ⟨.string, "'''''"⟩).2.2 '\'' rfl rfl).2 (by decide) (by decide),
    ((contents_cases ⟨.string, "u''''''"⟩).2.2 '\'' rfl rfl).1 (by decide),
    (contents_cases ⟨.string, "abc"⟩).2.1 (.inr rfl)⟩

end Token
end PackageRecipe
