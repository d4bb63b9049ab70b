import Mathlib
import PackageRecipe.Declaration.Requirement

/-!
When a dependency states a requirement, and which. The contents of its string fall into a name and
at most one constraint, so all that can go wrong is a second `@`; and since the `@` stays with the
constraint, a requirement written out is the contents that it was split from.
-/
namespace PackageRecipe

namespace Requirement

/-- The name has no `@`, and the constraint begins with its only one. -/
structure WellFormed (r : Requirement) : Prop where
  name : '@' ∉ r.name.toList
  constraint : ∀ c ∈ r.constraint, ∃ version, c.toList = '@' :: version ∧ '@' ∉ version

variable {contents name : List Char} {r : Requirement}

theorem ne_sign_of_not_mem (h : '@' ∉ name) : ∀ c ∈ name, decide (c ≠ '@') = true := by
  intro c hc
  apply decide_eq_true
  intro he
  subst he
  exact h hc

/-- Contents without `@` are all name. -/
theorem ofChars?_of_not_mem (h : '@' ∉ contents) :
    ofChars? contents = some ⟨String.ofList contents, none⟩ := by
  have hname := ne_sign_of_not_mem h
  rw [ofChars?, List.takeWhile_eq_self_iff.2 hname, List.dropWhile_eq_nil_iff.2 hname]

/-- The first `@` ends the name, and a second leaves no requirement. -/
theorem ofChars?_append (h : '@' ∉ name) (version : List Char) :
    ofChars? (name ++ '@' :: version) =
      if '@' ∈ version then none
      else some ⟨String.ofList name, some (String.ofList ('@' :: version))⟩ := by
  have hname := ne_sign_of_not_mem h
  rw [ofChars?, List.takeWhile_append_of_pos hname, List.dropWhile_append_of_pos hname,
    List.takeWhile_cons_of_neg (by decide), List.dropWhile_cons_of_neg (by decide),
    List.append_nil]

/-- Contents are split unless they have more than one `@`. -/
theorem ofChars?_eq_none_iff : ofChars? contents = none ↔ 2 ≤ contents.count '@' := by
  by_cases hm : '@' ∈ contents
  · obtain ⟨name, version, rfl, hn⟩ := List.eq_append_cons_of_mem hm
    have hcount : (name ++ '@' :: version).count '@' = version.count '@' + 1 := by
      rw [List.count_append, List.count_eq_zero.2 hn, List.count_cons_self, Nat.zero_add]
    rw [ofChars?_append hn, hcount]
    by_cases hv : '@' ∈ version
    · have hp := List.count_pos_iff.2 hv
      simp only [hv, if_true, true_iff]
      omega
    · have hz := List.count_eq_zero.2 hv
      simp only [hv, if_false, reduceCtorEq, false_iff]
      omega
  · rw [ofChars?_of_not_mem hm, List.count_eq_zero.2 hm]
    simp

/-- A requirement is split from the text that it is written as, and from no other. -/
theorem ofChars?_eq_some_iff :
    ofChars? contents = some r ↔ r.WellFormed ∧ r.text.toList = contents := by
  constructor
  · intro h
    by_cases hm : '@' ∈ contents
    · obtain ⟨name, version, rfl, hn⟩ := List.eq_append_cons_of_mem hm
      rw [ofChars?_append hn] at h
      split at h
      · cases h
      · rename_i hv
        obtain rfl := Option.some.inj h
        refine ⟨⟨?_, ?_⟩, ?_⟩
        · show '@' ∉ (String.ofList name).toList
          rwa [String.toList_ofList]
        · intro c hc
          obtain rfl := Option.some.inj hc
          exact ⟨version, String.toList_ofList, hv⟩
        · simp [text]
    · rw [ofChars?_of_not_mem hm] at h
      obtain rfl := Option.some.inj h
      refine ⟨⟨?_, nofun⟩, ?_⟩
      · show '@' ∉ (String.ofList contents).toList
        rwa [String.toList_ofList]
      · simp [text]
  · intro h
    obtain ⟨⟨hn, hc⟩, rfl⟩ := h
    obtain ⟨name, constraint⟩ := r
    cases constraint with
    | none =>
      have ht : (⟨name, none⟩ : Requirement).text.toList = name.toList := by simp [text]
      rw [ht, ofChars?_of_not_mem hn, String.ofList_toList]
    | some c =>
      obtain ⟨version, hv, hm⟩ := hc c rfl
      have ht : (⟨name, some c⟩ : Requirement).text.toList = name.toList ++ '@' :: version := by
        simp [text, hv]
      rw [ht, ofChars?_append hn, if_neg hm, ← hv, String.ofList_toList, String.ofList_toList]

/-- There is a constraint exactly if there is an `@` for it to begin with. -/
theorem WellFormed.constraint_eq_none_iff (h : r.WellFormed) :
    r.constraint = none ↔ '@' ∉ r.text.toList := by
  obtain ⟨name, constraint⟩ := r
  cases constraint with
  | none =>
    have hn : '@' ∉ name.toList := h.name
    simp [text, hn]
  | some c =>
    obtain ⟨version, hv, -⟩ := h.constraint c rfl
    simp [text, hv]

end Requirement

namespace Dependency

variable {d : Dependency} {contents : String}

/-- A dependency whose string has contents states a requirement, or has a second `@` in them. -/
theorem requirement_of_contents (h : d.spec.contents = .ok contents) :
    (2 ≤ contents.toList.count '@' ∧ d.requirement = .error ⟨.multipleVersions, d.spec.text⟩) ∨
      (contents.toList.count '@' < 2 ∧ ∃ requirement, d.requirement = .ok requirement) := by
  rw [requirement, h]
  dsimp only
  cases ho : Requirement.ofChars? contents.toList with
  | none => exact .inl ⟨Requirement.ofChars?_eq_none_iff.1 ho, rfl⟩
  | some requirement =>
    refine .inr ⟨?_, requirement, rfl⟩
    by_contra hn
    rw [Requirement.ofChars?_eq_none_iff.2 (by omega)] at ho
    cases ho

/-- The requirement of a dependency is the one that is written as its contents. -/
theorem requirement_eq_ok_iff (h : d.spec.contents = .ok contents) {r : Requirement} :
    d.requirement = .ok r ↔ r.WellFormed ∧ r.text = contents := by
  rw [← String.toList_inj, ← Requirement.ofChars?_eq_some_iff, requirement, h]
  dsimp only
  cases Requirement.ofChars? contents.toList with
  | none => simp
  | some found => simp

/-- What a dependency requires. If its string has contents, they fall into a name and a constraint
exactly if they have no second `@`; there is a constraint exactly if they have one, and the two
written one after the other are the contents, so different contents never require the same. A
second `@` is an error, and so is a token without contents; either shows the whole token. -/
theorem requirement_splits (d : Dependency) :
    (∀ contents, d.spec.contents = .ok contents →
      ((∃ r, d.requirement = .ok r) ↔ contents.toList.count '@' ≤ 1) ∧
      (∀ r, d.requirement = .ok r ↔ r.WellFormed ∧ r.text = contents) ∧
      (∀ r, d.requirement = .ok r → (r.constraint = none ↔ '@' ∉ contents.toList)) ∧
      (2 ≤ contents.toList.count '@' →
        d.requirement = .error ⟨.multipleVersions, d.spec.text⟩)) ∧
    (d.spec.contents = .error .notQuoted →
      d.requirement = .error ⟨.noContents .notQuoted, d.spec.text⟩) ∧
    ∀ (other : Dependency) (contents others : String) (r : Requirement),
      d.spec.contents = .ok contents → other.spec.contents = .ok others →
      d.requirement = .ok r → other.requirement = .ok r → contents = others := by
  refine ⟨?_, ?_, ?_⟩
  · intro contents h
    have hcases := requirement_of_contents h
    refine ⟨?_, fun r => requirement_eq_ok_iff h, ?_, ?_⟩
    · obtain ⟨hc, he⟩ | ⟨hc, ho⟩ := hcases
      · rw [he]
        simp only [reduceCtorEq, exists_false, false_iff]
        omega
      · exact ⟨fun _ => Nat.le_of_lt_succ hc, fun _ => ho⟩
    · intro r hr
      obtain ⟨hw, rfl⟩ := (requirement_eq_ok_iff h).1 hr
      exact hw.constraint_eq_none_iff
    · intro hc
      obtain ⟨-, he⟩ | ⟨hlt, -⟩ := hcases
      · exact he
      · omega
  · intro h
    rw [requirement, h]
  · intro other contents others r h ho hr hro
    obtain ⟨-, ht⟩ := (requirement_eq_ok_iff h).1 hr
    obtain ⟨-, hto⟩ := (requirement_eq_ok_iff ho).1 hro
    rw [← ht, ← hto]

/-- An empty name with an empty constraint, a second `@`, a token that is no string, and the same
requirement in two literals. -/
theorem requirement_splits_signs :
    let named (kind : Token.Kind) (text : String) : Dependency := ⟨⟨kind, text⟩, [], none⟩
    (named .string "'@'").requirement = .ok ⟨"", some "@"⟩ ∧
      (named .string "r'a@1@2'").requirement = .error ⟨.multipleVersions, "r'a@1@2'"⟩ ∧
      (named .identifier "a@1").requirement = .error ⟨.noContents .notQuoted, "a@1"⟩ ∧
      ∃ contents others, (named .string "'a@1'").spec.contents = .ok contents ∧
        (named .string "'''a@1'''").spec.contents = .ok others ∧ contents = others := by
  intro named
  have single := (requirement_splits (named .string "'@'")).1 "@" (by cbv)
  have second := (requirement_splits (named .string "r'a@1@2'")).1 "a@1@2" (by cbv)
  have short : (named .string "'a@1'").spec.contents = .ok "a@1" := by cbv
  have long : (named .string "'''a@1'''").spec.contents = .ok "a@1" := by cbv
  refine ⟨?_, ?_, ?_, "a@1", "a@1", short, long, ?_⟩
  · exact (single.2.1 ⟨"", some "@"⟩).2 ⟨⟨by decide, by simp⟩, by decide⟩
  · exact second.2.2.2 (by decide)
  · exact (requirement_splits (named .identifier "a@1")).2.1 (by cbv)
  · exact (requirement_splits (named .string "'a@1'")).2.2 (named .string "'''a@1'''") "a@1" "a@1"
      ⟨"a", some "@1"⟩ short long (by cbv) (by cbv)

end Dependency
end PackageRecipe
