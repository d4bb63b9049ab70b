import PackageRecipe.Proofs.Call.Complete

/-!
What reading finds, the grammar of a call derives. Each step takes off tokens that spell what it
returns; a value that nobody asked for is balanced once something is left behind it, and after the
last argument that is the closing parenthesis.
-/
namespace PackageRecipe.Call

theorem bind_eq_ok {α β : Type} {r : Except CallFault α} {next : α → Except CallFault β} {b : β} :
    (r >>= next) = .ok b ↔ ∃ a, r = .ok a ∧ next a = .ok b := by
  cases r with
  | error fault => exact ⟨nofun, fun ⟨_, h, _⟩ => nomatch h⟩
  | ok a =>
    rw [ok_bind]
    exact ⟨fun h => ⟨a, rfl, h⟩, fun ⟨_, ha, h⟩ => Except.ok.inj ha ▸ h⟩

theorem eq_of_isDelimiter {t : Token} {text : String} (h : t.isDelimiter text = true) :
    t = ⟨.delimiter, text⟩ := by
  obtain ⟨kind, s⟩ := t
  obtain ⟨rfl, rfl⟩ : kind = .delimiter ∧ s = text := by
    simpa [Token.isDelimiter, Token.spells] using h
  rfl

section Steps

variable {ts rest : List Token}

theorem take_eq_ok_iff {what : Expectation} {accepts : Token → Bool} {t : Token} :
    take what accepts ts = .ok (t, rest) ↔ ts = t :: rest ∧ accepts t = true := by
  cases ts with
  | nil => simp [take]
  | cons u us =>
    rw [take]
    split
    · rename_i hu
      simp only [Except.ok.injEq, Prod.mk.injEq, List.cons.injEq]
      constructor
      · rintro ⟨rfl, rfl⟩
        exact ⟨⟨rfl, rfl⟩, hu⟩
      · rintro ⟨h, -⟩
        exact h
    · rename_i hu
      simp only [reduceCtorEq, List.cons.injEq, false_iff]
      rintro ⟨⟨rfl, -⟩, ht⟩
      exact hu ht

theorem afterArgument_another (h : afterArgument ts = .ok (.another rest)) :
    ts = comma :: rest := by
  cases ts with
  | nil => cases h
  | cons t ts =>
    rw [afterArgument] at h
    split at h
    · rename_i hc
      rw [eq_of_isDelimiter hc]
      have ha := Except.ok.inj h
      cases ts with
      | nil => exact congrArg _ (Continuation.another.inj ha)
      | cons u us =>
        rw [afterComma] at ha
        split at ha
        · cases ha
        · exact congrArg _ (Continuation.another.inj ha)
    · split at h
      · cases h
      · cases h

theorem afterArgument_closed (h : afterArgument ts = .ok (.closed rest)) :
    ∃ trailing, TrailingComma trailing ∧ ts = trailing ++ closeParenthesis :: rest := by
  cases ts with
  | nil => cases h
  | cons t ts =>
    rw [afterArgument] at h
    split at h
    · rename_i hc
      rw [eq_of_isDelimiter hc]
      have ha := Except.ok.inj h
      cases ts with
      | nil => cases ha
      | cons u us =>
        rw [afterComma] at ha
        split at ha
        · rename_i hu
          rw [eq_of_isDelimiter hu, Continuation.closed.inj ha]
          exact ⟨[comma], .present, rfl⟩
        · cases ha
    · split at h
      · rename_i hc
        rw [eq_of_isDelimiter hc, Continuation.closed.inj (Except.ok.inj h)]
        exact ⟨[], .absent, rfl⟩
      · cases h

theorem moreTypes_sound {room : Nat} {values : List Token}
    (h : moreTypes room ts = .ok (values, rest)) :
    (∀ t ∈ values, isString t = true) ∧ values.length ≤ room ∧
      ∃ trailing, TrailingComma trailing ∧
        ts = values.flatMap (fun t => [comma, t]) ++ (trailing ++ closeParenthesis :: rest) := by
  induction room generalizing ts values with
  | zero =>
    unfold moreTypes at h
    split at h
    · cases h
    · rename_i ha
      cases h
      exact ⟨nofun, Nat.le_refl _, afterArgument_closed ha⟩
    · cases h
  | succ room ih =>
    unfold moreTypes at h
    split at h
    · cases h
    · rename_i ha
      cases h
      exact ⟨nofun, Nat.zero_le _, afterArgument_closed ha⟩
    · rename_i ha
      obtain ⟨⟨value, us⟩, hv, h⟩ := bind_eq_ok.1 h
      obtain ⟨⟨others, vs⟩, ho, h⟩ := bind_eq_ok.1 h
      cases h
      obtain ⟨rfl, hs⟩ := take_eq_ok_iff.1 hv
      obtain ⟨hos, hl, trailing, ht, rfl⟩ := ih ho
      refine ⟨List.forall_mem_cons.2 ⟨hs, hos⟩, Nat.succ_le_succ hl, trailing, ht, ?_⟩
      rw [afterArgument_another ha]
      rfl

theorem takeTypes_sound {values : List Token} (h : takeTypes ts = .ok (values, rest)) :
    ∃ us, TypesForm values us ∧ ts = us ++ rest := by
  rw [takeTypes] at h
  split at h
  · rename_i ho
    obtain ⟨t, ht, hp⟩ := (Option.any_eq_true _ _).1 ho
    obtain ⟨tail, rfl⟩ := List.head?_eq_some_iff.1 ht
    obtain rfl := eq_of_isDelimiter hp
    obtain ⟨⟨value, us⟩, hv, h⟩ := bind_eq_ok.1 h
    obtain ⟨⟨others, vs⟩, hm, h⟩ := bind_eq_ok.1 h
    cases h
    obtain ⟨rfl, hs⟩ := take_eq_ok_iff.1 hv
    obtain ⟨hos, hl, trailing, htr, rfl⟩ := moreTypes_sound hm
    exact ⟨_, .list (List.forall_mem_cons.2 ⟨hs, hos⟩) (Nat.succ_le_succ hl) htr,
      by simp [openParenthesis]⟩
  · obtain ⟨⟨value, us⟩, hv, h⟩ := bind_eq_ok.1 h
    cases h
    obtain ⟨rfl, hs⟩ := take_eq_ok_iff.1 hv
    exact ⟨[value], .single hs, rfl⟩

theorem Slot.read_sound {call : Call} {key : Token} {slot : Slot call} {s : Setting call}
    (h : slot.read key ts = .ok (s, rest)) :
    ∃ us, Setting.Form key slot s us ∧ ts = us ++ rest := by
  cases slot with
  | pin =>
    obtain ⟨⟨value, us⟩, hv, h⟩ := bind_eq_ok.1 h
    cases h
    obtain ⟨rfl, hs⟩ := take_eq_ok_iff.1 hv
    exact ⟨[value], .pin hs, rfl⟩
  | source =>
    obtain ⟨⟨value, us⟩, hv, h⟩ := bind_eq_ok.1 h
    cases h
    obtain ⟨rfl, hs⟩ := take_eq_ok_iff.1 hv
    exact ⟨[value], .source hs, rfl⟩
  | preferred =>
    obtain ⟨⟨value, us⟩, hv, h⟩ := bind_eq_ok.1 h
    cases h
    obtain ⟨rfl, hs⟩ := take_eq_ok_iff.1 hv
    exact ⟨[value], .preferred (isBoolean_iff.1 hs), rfl⟩
  | types =>
    obtain ⟨⟨values, us⟩, hv, h⟩ := bind_eq_ok.1 h
    cases h
    obtain ⟨us, ht, rfl⟩ := takeTypes_sound hv
    exact ⟨us, .types ht, rfl⟩
  | condition =>
    obtain ⟨⟨value, us⟩, hv, h⟩ := bind_eq_ok.1 h
    cases h
    obtain ⟨rfl, hs⟩ := take_eq_ok_iff.1 hv
    exact ⟨[value], .condition hs, rfl⟩

/-- What is dropped before another token closes the brackets that it opens. -/
theorem dropValue_sound {depth : Nat} (h : dropValue depth ts = rest) (hr : rest ≠ []) :
    ∃ us, Balanced depth us ∧ ts = us ++ rest := by
  induction ts generalizing depth with
  | nil => exact absurd h.symm hr
  | cons t ts ih =>
    rw [dropValue] at h
    split at h
    · rename_i hend
      obtain ⟨rfl, -⟩ := by simpa using hend
      exact ⟨[], .nil, h⟩
    · rename_i hgo
      obtain ⟨us, hb, rfl⟩ := ih h
      exact ⟨t :: us, balanced_cons_iff.2 ⟨by simpa using hgo, hb⟩, rfl⟩

theorem Entry.read_sound {call : Call} {e : Entry call} (h : Entry.read call ts = .ok (e, rest))
    (hr : rest ≠ []) : ∃ us, Entry.Form e us ∧ ts = us ++ rest := by
  obtain ⟨⟨key, us⟩, hk, hv⟩ := bind_eq_ok.1 h
  obtain ⟨rfl, hkey⟩ := take_eq_ok_iff.1 hk
  dsimp only at hv
  split at hv
  · rename_i hslot
    cases hv
    unfold dropAssigned at hr ⊢
    split at hr
    · rename_i ha
      rw [if_pos ha]
      obtain ⟨t, ht, hp⟩ := (Option.any_eq_true _ _).1 ha
      obtain ⟨tail, rfl⟩ := List.head?_eq_some_iff.1 ht
      obtain rfl := eq_of_isDelimiter hp
      obtain ⟨vs, hb, he⟩ := dropValue_sound rfl hr
      refine ⟨key :: assignment :: vs, .unknownAssigned hkey hslot hb, ?_⟩
      exact congrArg (fun us => key :: assignment :: us) he
    · rename_i ha
      rw [if_neg ha]
      exact ⟨[key], .unknown hkey hslot, rfl⟩
  · rename_i slot hslot
    obtain ⟨⟨sign, vs⟩, ha, hv⟩ := bind_eq_ok.1 hv
    obtain ⟨⟨s, ws⟩, hs, hv⟩ := bind_eq_ok.1 hv
    cases hv
    obtain ⟨rfl, hsign⟩ := take_eq_ok_iff.1 ha
    obtain ⟨vs, hf, rfl⟩ := Slot.read_sound hs
    refine ⟨key :: assignment :: vs, .setting hkey hslot hf, ?_⟩
    rw [eq_of_isDelimiter hsign]
    rfl

/-- Arguments that are read to the closing parenthesis are spelled before it. -/
theorem Arguments.read_sound {call : Call} {es : List (Entry call)}
    (h : Arguments.read call ts = ⟨es, .ok rest⟩) :
    ∃ us trailing, EntriesForm es us ∧ TrailingComma trailing ∧
      ts = us ++ (trailing ++ closeParenthesis :: rest) := by
  induction ts using Arguments.read.induct call generalizing es with
  | case1 ts fault ha =>
    rw [read_of_afterArgument_error ha] at h
    cases h
  | case2 ts left ha =>
    rw [read_of_closed ha] at h
    cases h
    obtain ⟨trailing, ht, rfl⟩ := afterArgument_closed ha
    exact ⟨[], trailing, .nil, ht, rfl⟩
  | case3 ts us ha fault he =>
    rw [read_of_error ha he] at h
    cases h
  | case4 ts us ha e left he ih =>
    rw [read_of_entry ha he] at h
    obtain ⟨hes, hrest⟩ := Arguments.mk.inj h
    subst hes
    have hl : read call left = ⟨(read call left).entries, .ok rest⟩ := by rw [← hrest]
    obtain ⟨vs, trailing, hvs, ht, rfl⟩ := ih hl
    obtain ⟨ws, hf, rfl⟩ := Entry.read_sound he (by simp)
    refine ⟨comma :: ws ++ vs, trailing, .cons hf hvs, ht, ?_⟩
    rw [afterArgument_another ha, List.append_assoc]
    rfl

/-- The first argument of a call and what follows it. -/
theorem opening_sound {tokens : List Token} {first : Token}
    (h : opening tokens = .ok (first, rest)) :
    isString first = true ∧ ∃ callee,
      tokens.filter (fun t => !t.isFiller) = callee :: openParenthesis :: first :: rest := by
  obtain ⟨⟨sign, us⟩, ho, h⟩ := bind_eq_ok.1 h
  obtain ⟨ht, hsign⟩ := take_eq_ok_iff.1 ho
  obtain ⟨rfl, hs⟩ := take_eq_ok_iff.1 h
  refine ⟨hs, ?_⟩
  cases hf : tokens.filter fun t => !t.isFiller with
  | nil =>
    rw [hf] at ht
    cases ht
  | cons callee vs =>
    rw [hf] at ht
    rw [eq_of_isDelimiter hsign] at ht
    exact ⟨callee, congrArg _ ht⟩

end Steps
end PackageRecipe.Call
