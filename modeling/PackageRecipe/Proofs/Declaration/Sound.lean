import PackageRecipe.Proofs.Call.Grammar
import PackageRecipe.Proofs.Declaration.Written

/-!
What a call declares is spelled in its tokens. The arguments before the closing parenthesis set the
slots of the declaration, the last one of a slot for good, so whatever every setting fulfils the
declaration fulfils as well.
-/
namespace PackageRecipe

open Call

theorem DeclarationReading.ofTokens_of_opening_error {call : Call} {tokens : List Token}
    {fault : CallFault} (h : opening tokens = .error fault) :
    ofTokens call tokens = ⟨.error ⟨call, fault⟩, []⟩ := by
  rw [ofTokens, h]

/-- Behind its opening a call is what its arguments are. -/
theorem DeclarationReading.ofTokens_of_opening {call : Call} {tokens : List Token} {first : Token}
    {rest : List Token} (h : opening tokens = .ok (first, rest)) :
    ofTokens call tokens =
      ⟨((Arguments.read call rest).outcome.map fun _ =>
          Declaration.ofSettings first call (Arguments.read call rest).settings).mapError
            (CallError.mk call),
        (Arguments.read call rest).unknown⟩ := by
  rw [ofTokens, h]
  dsimp only
  cases (Arguments.read call rest).outcome with
  | error fault => rfl
  | ok after => rfl

/-- A call declares something only if its tokens spell it. -/
theorem DeclarationReading.form_of_ok {call : Call} {tokens : List Token} {d : Declaration}
    (h : (ofTokens call tokens).result = .ok d) :
    ∃ (first : Token) (es : List (Entry call)),
      Call.Form first es (tokens.filter fun t => !t.isFiller) ∧
        d = .ofSettings first call (es.filterMap Entry.setting?) ∧
        (ofTokens call tokens).unknown = es.filterMap Entry.unknown? := by
  cases ho : opening tokens with
  | error fault =>
    rw [ofTokens_of_opening_error ho] at h
    cases h
  | ok found =>
    obtain ⟨first, rest⟩ := found
    rw [ofTokens_of_opening ho] at h ⊢
    cases hr : (Arguments.read call rest).outcome with
    | error fault =>
      rw [hr] at h
      cases h
    | ok after =>
      rw [hr] at h
      cases h
      obtain ⟨hs, callee, he⟩ := opening_sound ho
      have ha : Arguments.read call rest = ⟨(Arguments.read call rest).entries, .ok after⟩ := by
        rw [← hr]
      obtain ⟨us, trailing, hes, ht, hrest⟩ := Arguments.read_sound ha
      refine ⟨first, (Arguments.read call rest).entries, ?_, rfl, rfl⟩
      have hl : callee :: openParenthesis :: first :: rest =
          callee :: openParenthesis :: first :: us ++ trailing ++ closeParenthesis :: after := by
        simp [hrest]
      rw [he, hl]
      exact .mk hs hes ht

namespace Call

variable {Literal : Token → Prop}

/-- What a setting fulfils, whichever tokens count as string literals. -/
def Setting.WellFormed (Literal : Token → Prop) : {call : Call} → Setting call → Prop
  | _, .pin a => a.WellFormed Literal pinKeys
  | _, .source a => a.WellFormed Literal sourceKeys
  | _, .preferred t => t = ⟨.keyword, "True"⟩ ∨ t = ⟨.keyword, "False"⟩
  | _, .types ts => (∀ t ∈ ts, Literal t) ∧ ts.length ≤ typeLimit
  | _, .condition t => Literal t

theorem TypesForm.mem {values ts : List Token} (h : TypesForm values ts) :
    (∀ t ∈ values, t ∈ ts ∧ isString t = true) ∧ values.length ≤ typeLimit := by
  cases h with
  | single hs => exact ⟨by simpa using hs, Nat.le_of_ble_eq_true rfl⟩
  | list hs hl _ =>
    refine ⟨fun t ht => ⟨?_, hs t ht⟩, hl⟩
    rcases List.mem_cons.1 ht with rfl | ht
    · simp
    · have hm : ∃ u ∈ _, t = comma ∨ t = u := ⟨t, ht, .inr rfl⟩
      simp [hm]

/-- An argument sets its slot to strings among its tokens. -/
theorem Entry.Form.wellFormed {call : Call} {s : Setting call} {ts : List Token}
    (h : Entry.Form (.setting s) ts) (hl : ∀ t ∈ ts, isString t = true → Literal t) :
    s.WellFormed Literal := by
  cases h with
  | @setting key slot s ts hk ho hs =>
    have hm := (Slot.ofKey?_eq_some_iff _).1 ho
    cases hs with
    | pin hv => exact ⟨hk, hm, hl _ (by simp) hv⟩
    | source hv => exact ⟨hk, hm, hl _ (by simp) hv⟩
    | preferred hv => exact hv
    | types ht =>
      refine ⟨fun t hm => ?_, ht.mem.2⟩
      obtain ⟨hm, hv⟩ := ht.mem.1 t hm
      exact hl t (by simp [hm]) hv
    | condition hv => exact hl _ (by simp) hv

theorem EntriesForm.wellFormed {call : Call} {es : List (Entry call)} {ts : List Token}
    (h : EntriesForm es ts) (hl : ∀ t ∈ ts, isString t = true → Literal t) :
    ∀ s ∈ es.filterMap Entry.setting?, s.WellFormed Literal := by
  induction h with
  | nil => nofun
  | @cons e es ts us he _ ih =>
    have hes := ih fun t ht => hl t (by simp [ht])
    cases e with
    | unknown key => exact hes
    | setting s =>
      have hs := he.wellFormed fun t ht => hl t (by simp [ht])
      exact List.forall_mem_cons.2 ⟨hs, hes⟩

end Call

section WellFormed

variable {Literal : Token → Prop}

theorem Version.WellFormed.set {v : Version} {s : Setting .version} (hv : v.WellFormed Literal)
    (hs : s.WellFormed Literal) : (v.set s).WellFormed Literal := by
  cases s with
  | pin a => exact { hv with pin := by rintro _ ⟨⟩; exact hs }
  | source a => exact { hv with source := by rintro _ ⟨⟩; exact hs }
  | preferred t => exact { hv with preferred := by rintro _ ⟨⟩; exact hs }

theorem Dependency.WellFormed.set {d : Dependency} {s : Setting .dependsOn}
    (hd : d.WellFormed Literal) (hs : s.WellFormed Literal) : (d.set s).WellFormed Literal := by
  cases s with
  | types ts => exact { hd with types := hs.1, types_length := hs.2 }
  | condition t => exact { hd with condition := by rintro _ ⟨⟩; exact hs }

/-- Settings overwrite each other and leave the declaration well formed. -/
theorem Declaration.wellFormed_ofSettings {first : Token} {call : Call}
    {settings : List (Setting call)} (hf : Literal first)
    (hs : ∀ s ∈ settings, s.WellFormed Literal) :
    (Declaration.ofSettings first call settings).WellFormed Literal := by
  cases call with
  | version =>
    have hv : (⟨first, none, none, none⟩ : Version).WellFormed Literal := ⟨hf, nofun, nofun, nofun⟩
    exact List.foldlRecOn settings Version.set hv fun v hv s hm => hv.set (hs s hm)
  | dependsOn =>
    have hd : (⟨first, [], none⟩ : Dependency).WellFormed Literal :=
      ⟨hf, nofun, Nat.zero_le _, nofun⟩
    exact List.foldlRecOn settings Dependency.set hd fun d hd s hm => hd.set (hs s hm)

/-- What a call declares is well formed if the strings among its tokens are literals. -/
theorem DeclarationReading.wellFormed_of_ok {call : Call} {tokens : List Token} {d : Declaration}
    (h : (ofTokens call tokens).result = .ok d)
    (hl : ∀ t ∈ tokens, isString t = true → Literal t) : d.WellFormed Literal := by
  obtain ⟨first, es, hf, rfl, -⟩ := form_of_ok h
  generalize hs : (tokens.filter fun t => !t.isFiller) = significant at hf
  have hl : ∀ t ∈ significant, isString t = true → Literal t := by
    rw [← hs]
    exact fun t ht => hl t (List.mem_of_mem_filter ht)
  cases hf with
  | mk hfirst hes _ =>
    refine Declaration.wellFormed_ofSettings (hl _ (by simp) hfirst) ?_
    exact hes.wellFormed fun t ht => hl t (by simp [ht])

end WellFormed
end PackageRecipe
