import PackageRecipe.Proofs.Call.Grammar

/-!
Lists of types that are too long. The reader gives up at the comma behind the last type that there
is room for, unless that comma ends the list, so what follows in the list and in the call is never
looked at. Nothing else makes it give up in this way.
-/
namespace PackageRecipe.Call

theorem afterArgument_eq_another_iff {ts rest : List Token} :
    afterArgument ts = .ok (.another rest) ↔
      ts = comma :: rest ∧ ∀ t ∈ rest.head?, t.isDelimiter ")" = false := by
  constructor
  · intro h
    obtain rfl := afterArgument_another h
    refine ⟨rfl, fun t ht => ?_⟩
    obtain ⟨us, rfl⟩ := List.head?_eq_some_iff.1 ht
    cases hc : t.isDelimiter ")" with
    | false => rfl
    | true =>
      rw [eq_of_isDelimiter hc] at h
      cases h
  · rintro ⟨rfl, h⟩
    exact afterArgument_comma h

theorem take_ne_tooManyTypes {what : Expectation} {accepts : Token → Bool} {ts : List Token} :
    take what accepts ts ≠ .error .tooManyTypes := by
  intro h
  cases ts with
  | nil => cases h
  | cons t ts =>
    rw [take] at h
    split at h
    · cases h
    · cases h

theorem afterArgument_ne_tooManyTypes {ts : List Token} :
    afterArgument ts ≠ .error .tooManyTypes := by
  intro h
  cases ts with
  | nil => cases h
  | cons t ts =>
    rw [afterArgument] at h
    split at h
    · cases h
    · split at h
      · cases h
      · cases h

theorem bind_eq_error {α β : Type} {r : Except CallFault α} {next : α → Except CallFault β}
    {fault : CallFault} :
    (r >>= next) = .error fault ↔ r = .error fault ∨ ∃ a, r = .ok a ∧ next a = .error fault := by
  cases r with
  | error other =>
    constructor
    · intro h
      exact .inl (congrArg Except.error (Except.error.inj h))
    · rintro (h | ⟨_, h, -⟩)
      · exact congrArg Except.error (Except.error.inj h)
      · cases h
  | ok a =>
    rw [ok_bind]
    constructor
    · intro h
      exact .inr ⟨a, rfl, h⟩
    · rintro (h | ⟨_, ha, h⟩)
      · cases h
      · rwa [Except.ok.inj ha]

section Types

variable {room : Nat} {t : Token} {ts us rest values : List Token}

/-- Types that there is room for are taken, one after the other. -/
theorem moreTypes_values (hs : ∀ t ∈ values, isString t = true) (room : Nat) (more : List Token) :
    moreTypes (values.length + room) (values.flatMap (fun t => [comma, t]) ++ more) =
      (moreTypes room more).map fun found => (values ++ found.1, found.2) := by
  induction values with
  | nil =>
    rw [List.length_nil, Nat.zero_add, List.flatMap_nil, List.nil_append]
    cases moreTypes room more with
    | error fault => rfl
    | ok found => rfl
  | cons t ts ih =>
    obtain ⟨hd, htl⟩ := List.forall_mem_cons.1 hs
    have head : ∀ u ∈ (t :: (ts.flatMap (fun t => [comma, t]) ++ more)).head?,
        u.isDelimiter ")" = false := by
      rintro _ ⟨⟩
      exact not_isDelimiter_of_isString hd _
    rw [List.length_cons, Nat.add_right_comm, List.flatMap_cons, List.append_assoc,
      List.cons_append, List.cons_append, List.nil_append, moreTypes, afterArgument_comma head]
    dsimp only
    rw [takeString_cons hd, ok_bind, ih htl]
    cases moreTypes room more with
    | error fault => rfl
    | ok found => rfl

/-- With no room left, a comma is one too many if it does not end the list. -/
theorem moreTypes_eq_tooManyTypes_iff :
    moreTypes room ts = .error .tooManyTypes ↔
      ∃ values rest : List Token, values.length = room ∧ (∀ t ∈ values, isString t = true) ∧
        (∀ t ∈ rest.head?, t.isDelimiter ")" = false) ∧
        ts = values.flatMap (fun t => [comma, t]) ++ comma :: rest := by
  constructor
  · intro h
    induction room generalizing ts with
    | zero =>
      unfold moreTypes at h
      split at h
      · rename_i fault ha
        rw [Except.error.inj h] at ha
        exact absurd ha afterArgument_ne_tooManyTypes
      · cases h
      · rename_i rest ha
        obtain ⟨rfl, hr⟩ := afterArgument_eq_another_iff.1 ha
        exact ⟨[], rest, rfl, nofun, hr, rfl⟩
    | succ room ih =>
      unfold moreTypes at h
      split at h
      · rename_i fault ha
        rw [Except.error.inj h] at ha
        exact absurd ha afterArgument_ne_tooManyTypes
      · cases h
      · rename_i rest ha
        obtain ⟨rfl, -⟩ := afterArgument_eq_another_iff.1 ha
        obtain hv | ⟨⟨value, us⟩, hv, hn⟩ := bind_eq_error.1 h
        · exact absurd hv take_ne_tooManyTypes
        · obtain ⟨rfl, hs⟩ := take_eq_ok_iff.1 hv
          obtain hm | ⟨found, -, hn⟩ := bind_eq_error.1 hn
          · obtain ⟨values, rest, hl, hvs, hr, rfl⟩ := ih hm
            exact ⟨value :: values, rest, by rw [List.length_cons, hl],
              List.forall_mem_cons.2 ⟨hs, hvs⟩, hr, rfl⟩
          · cases hn
  · rintro ⟨values, rest, rfl, hs, hr, rfl⟩
    have hz : moreTypes 0 (comma :: rest) = .error .tooManyTypes := by
      rw [moreTypes, afterArgument_comma hr]
    rw [← Nat.add_zero values.length, moreTypes_values hs, hz]
    rfl

/-- A list of types, the comma behind the last of them, and what follows it. -/
inductive TypesBegin (rest : List Token) : List Token → List Token → Prop where
  | mk {t : Token} {ts : List Token} : (∀ u ∈ t :: ts, isString u = true) →
      TypesBegin rest (t :: ts)
        (openParenthesis :: t :: ts.flatMap (fun u => [comma, u]) ++ comma :: rest)

theorem takeTypes_list (hs : isString t = true) (ts : List Token) :
    takeTypes (openParenthesis :: t :: ts) =
      (moreTypes (typeLimit - 1) ts).map fun found => (t :: found.1, found.2) := by
  rw [takeTypes, if_pos (by rfl), List.tail_cons, takeString_cons hs, ok_bind]
  dsimp only
  cases moreTypes (typeLimit - 1) ts with
  | error fault => rfl
  | ok found => rfl

theorem takeTypes_eq_tooManyTypes_iff :
    takeTypes ts = .error .tooManyTypes ↔
      ∃ values rest : List Token, values.length = typeLimit ∧ TypesBegin rest values ts ∧
        ∀ t ∈ rest.head?, t.isDelimiter ")" = false := by
  constructor
  · intro h
    rw [takeTypes] at h
    split at h
    · rename_i ho
      obtain ⟨t, ht, hp⟩ := (Option.any_eq_true _ _).1 ho
      obtain ⟨us, rfl⟩ := List.head?_eq_some_iff.1 ht
      obtain rfl := eq_of_isDelimiter hp
      obtain hv | ⟨⟨value, vs⟩, hv, hn⟩ := bind_eq_error.1 h
      · exact absurd hv take_ne_tooManyTypes
      · obtain ⟨rfl, hs⟩ := take_eq_ok_iff.1 hv
        obtain hm | ⟨found, -, hn⟩ := bind_eq_error.1 hn
        · obtain ⟨values, rest, hl, hvs, hr, rfl⟩ := moreTypes_eq_tooManyTypes_iff.1 hm
          exact ⟨value :: values, rest, by rw [List.length_cons, hl]; rfl,
            .mk (List.forall_mem_cons.2 ⟨hs, hvs⟩), hr⟩
        · cases hn
    · obtain hv | ⟨found, -, hn⟩ := bind_eq_error.1 h
      · exact absurd hv take_ne_tooManyTypes
      · cases hn
  · rintro ⟨_, rest, hl, ⟨hs⟩, hr⟩
    obtain ⟨hd, htl⟩ := List.forall_mem_cons.1 hs
    rw [List.cons_append, List.cons_append, takeTypes_list hd,
      moreTypes_eq_tooManyTypes_iff.2 ⟨_, rest, Nat.eq_sub_of_add_eq hl, htl, hr, rfl⟩]
    rfl

/-- A list that ends behind a comma with room left lacks the next type. -/
theorem takeTypes_of_typesBegin_nil (h : TypesBegin [] values ts) (hl : values.length < typeLimit) :
    takeTypes ts = .error (.expected .string none) := by
  obtain ⟨hs⟩ := h
  rename_i t ts
  obtain ⟨hd, htl⟩ := List.forall_mem_cons.1 hs
  obtain ⟨room, hroom⟩ : ∃ room, typeLimit - 1 = ts.length + (room + 1) :=
    Nat.exists_eq_add_of_lt (Nat.lt_sub_of_add_lt hl)
  have hz : moreTypes (room + 1) [comma] = .error (.expected .string none) := rfl
  rw [List.cons_append, List.cons_append, takeTypes_list hd, hroom, moreTypes_values htl, hz]
  rfl

/-- The argument that gives the types has their fault. -/
theorem Entry.read_of_takeTypes_error {key : Token} {fault : CallFault} (hk : isKey key = true)
    (ht : key.text = "type") (h : takeTypes ts = .error fault) :
    Entry.read .dependsOn (key :: assignment :: ts) = .error fault := by
  have ho : Slot.ofKey? .dependsOn key.text = some .types := by
    rw [ht]
    rfl
  rw [Entry.read, take_cons hk]
  simp only [ok_bind, ho]
  rw [takeAssignment, take_cons (by decide), ok_bind, Slot.read, h]
  rfl

/-- Only the types of a dependency can be too many. -/
theorem Entry.read_tooManyTypes {call : Call} (h : Entry.read call ts = .error .tooManyTypes) :
    call = .dependsOn ∧ ∃ key us, isKey key = true ∧ key.text = "type" ∧
      takeTypes us = .error .tooManyTypes ∧ ts = key :: assignment :: us := by
  obtain hk | ⟨⟨key, us⟩, hk, hn⟩ := bind_eq_error.1 h
  · exact absurd hk take_ne_tooManyTypes
  obtain ⟨rfl, hkey⟩ := take_eq_ok_iff.1 hk
  dsimp only at hn
  split at hn
  · cases hn
  rename_i slot ho
  obtain ha | ⟨⟨sign, vs⟩, ha, hassigned⟩ := bind_eq_error.1 hn
  · exact absurd ha take_ne_tooManyTypes
  obtain ⟨rfl, hsign⟩ := take_eq_ok_iff.1 ha
  obtain rfl := eq_of_isDelimiter hsign
  obtain hread | ⟨found, -, hset⟩ := bind_eq_error.1 hassigned
  · cases slot with
    | types =>
      obtain hv | ⟨values, -, hset⟩ := bind_eq_error.1 hread
      · have hm := (Slot.ofKey?_eq_some_iff .types).1 ho
        exact ⟨rfl, key, vs, hkey, List.mem_singleton.1 hm, hv, rfl⟩
      · cases hset
    | pin | source | preferred | condition =>
      obtain hv | ⟨value, -, hset⟩ := bind_eq_error.1 hread
      · exact absurd hv take_ne_tooManyTypes
      · cases hset
  · cases hset

/-- More types than there is room for are too many, whatever follows the last of them. -/
theorem Entry.read_of_length_lt {key : Token} (hk : isKey key = true) (ht : key.text = "type")
    (hs : ∀ u ∈ t :: ts, isString u = true) (hl : typeLimit < (t :: ts).length)
    (rest : List Token) :
    Entry.read .dependsOn (key :: assignment :: openParenthesis :: t ::
      ts.flatMap (fun u => [comma, u]) ++ rest) = .error .tooManyTypes := by
  have hroom : typeLimit - 1 < ts.length := Nat.lt_of_succ_lt_succ hl
  obtain ⟨d, more, hd⟩ :=
    List.exists_cons_of_ne_nil (mt List.drop_eq_nil_iff.1 (Nat.not_le.2 hroom))
  obtain ⟨taken, htaken, rfl⟩ : ∃ taken : List Token, taken.length = typeLimit - 1 ∧
      ts = taken ++ d :: more := by
    exact ⟨ts.take (typeLimit - 1), List.length_take_of_le (Nat.le_of_lt hroom),
      by rw [← hd, List.take_append_drop]⟩
  have hstring : ∀ u ∈ d :: more, isString u = true := fun u hu =>
    hs u (List.mem_cons_of_mem _ (List.mem_append_right _ hu))
  have hbegin : TypesBegin (d :: more.flatMap (fun u => [comma, u]) ++ rest) (t :: taken)
      (openParenthesis :: t :: taken.flatMap (fun u => [comma, u]) ++
        comma :: (d :: more.flatMap (fun u => [comma, u]) ++ rest)) :=
    .mk fun u hu => hs u (List.mem_append_left (d :: more) hu)
  have hlength : (t :: taken).length = typeLimit := by
    rw [List.length_cons, htaken]
    rfl
  have hnext : ∀ u ∈ (d :: more.flatMap (fun u => [comma, u]) ++ rest).head?,
      u.isDelimiter ")" = false := by
    rintro _ ⟨⟩
    exact not_isDelimiter_of_isString (hstring d List.mem_cons_self) _
  have hread := Entry.read_of_takeTypes_error hk ht
    (takeTypes_eq_tooManyTypes_iff.2 ⟨_, _, hlength, hbegin, hnext⟩)
  simpa using hread

/-- Arguments with too many types are whole up to the one that has them. -/
theorem Arguments.read_tooManyTypes {call : Call}
    (h : (Arguments.read call ts).outcome = .error .tooManyTypes) :
    ∃ (es : List (Entry call)) (us rest : List Token), EntriesForm es us ∧
      ts = us ++ comma :: rest ∧ Entry.read call rest = .error .tooManyTypes := by
  induction ts using Arguments.read.induct call with
  | case1 ts fault ha =>
    rw [read_of_afterArgument_error ha] at h
    obtain rfl := Except.error.inj h
    exact absurd ha afterArgument_ne_tooManyTypes
  | case2 ts rest ha =>
    rw [read_of_closed ha] at h
    cases h
  | case3 ts us ha fault he =>
    rw [read_of_error ha he] at h
    obtain rfl := Except.error.inj h
    exact ⟨[], [], us, .nil, afterArgument_another ha, he⟩
  | case4 ts us ha e left he ih =>
    rw [read_of_entry ha he] at h
    obtain ⟨es, vs, rest, hes, rfl, hr⟩ := ih h
    obtain ⟨ws, hf, rfl⟩ := Entry.read_sound he (by simp)
    refine ⟨e :: es, comma :: ws ++ vs, rest, .cons hf hes, ?_, hr⟩
    rw [afterArgument_another ha, List.append_assoc]
    rfl

end Types
end PackageRecipe.Call
