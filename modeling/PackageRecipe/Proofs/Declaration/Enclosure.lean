import PackageRecipe.Proofs.Declaration.Grammar
import PackageRecipe.Proofs.Declaration.InPlace

/-!
The brackets of a call. Whatever its arguments are, they close what they open, so the parenthesis
that reading stops at is the one that closes the first parenthesis of the call. A call statement is
laid out around these two: what stands between them makes the declaration, and what stands behind
the second takes no part in it.
-/
namespace PackageRecipe

open Call

section Depth

variable {depth : Nat} {t : Token} {ts us : List Token}

theorem Token.depthAfter_mono (t : Token) {d e : Nat} (h : d ≤ e) :
    t.depthAfter d ≤ t.depthAfter e := by
  unfold depthAfter
  split_ifs
  · omega
  · omega
  · exact h

/-- The more brackets are open before tokens, the more are open after them. -/
theorem openAfter_mono (ts : List Token) {d e : Nat} (h : d ≤ e) :
    openAfter d ts ≤ openAfter e ts := by
  induction ts generalizing d e with
  | nil => exact h
  | cons t ts ih => exact ih (t.depthAfter_mono h)

theorem openAfter_significant (depth : Nat) (ts : List Token) :
    openAfter depth (significant ts) = openAfter depth ts := by
  induction ts generalizing depth with
  | nil => rfl
  | cons t ts ih =>
    cases ht : t.isFiller with
    | true =>
      rw [significant_cons_of_isFiller ht, ih]
      show openAfter depth ts = openAfter (t.depthAfter depth) ts
      rw [Token.depthAfter_of_isFiller ht]
    | false =>
      rw [significant_cons ht]
      exact ih (t.depthAfter depth)

theorem unbroken_append : Unbroken depth (ts ++ us) ↔
    Unbroken depth ts ∧ Unbroken (openAfter depth ts) us := by
  induction ts generalizing depth with
  | nil => simp [Unbroken, openAfter]
  | cons t ts ih =>
    rw [List.cons_append, Unbroken, ih, Unbroken, and_assoc]
    rfl

end Depth

/-- Tokens that leave as many brackets open as were open before them, however many that are. -/
def Nested (ts : List Token) : Prop := ∀ depth, openAfter depth ts = depth

namespace Nested

variable {t : Token} {ts us : List Token}

theorem nil : Nested [] := fun _ => rfl

theorem append (ht : Nested ts) (hu : Nested us) : Nested (ts ++ us) := by
  intro depth
  rw [openAfter_append, ht, hu]

theorem cons (ho : t.isOpener = false) (hc : t.isCloser = false) (h : Nested ts) :
    Nested (t :: ts) := by
  intro depth
  have step : t.depthAfter depth = depth := by
    simp [Token.depthAfter, ho, hc]
  show openAfter (t.depthAfter depth) ts = depth
  rw [step, h]

/-- A token that is no delimiter does not matter. -/
theorem cons_of_kind (hk : t.kind ≠ .delimiter) (h : Nested ts) : Nested (t :: ts) := by
  apply cons
  · simp [Token.isOpener, Token.isDelimiter, Token.spells, hk]
  · simp [Token.isCloser, Token.isDelimiter, Token.spells, hk]
  · exact h

theorem parenthesized (h : Nested ts) : Nested (openParenthesis :: ts ++ [closeParenthesis]) := by
  intro depth
  show openAfter (depth + 1) (ts ++ [closeParenthesis]) = depth
  rw [openAfter_append, h]
  rfl

theorem of_significant (h : Nested (significant ts)) : Nested ts := by
  intro depth
  rw [← openAfter_significant, h]

/-- No bracket that is open before them is closed on the way. -/
theorem openAfter_ne_zero (h : Nested (ts ++ us)) (depth : Nat) :
    openAfter (depth + 1) ts ≠ 0 := by
  intro hz
  -- with one bracket less the count would be the same from here on
  have hless : openAfter depth ts = 0 := by
    have hm : openAfter depth ts ≤ openAfter (depth + 1) ts := openAfter_mono ts (Nat.le_succ depth)
    omega
  have hsame : openAfter depth (ts ++ us) = openAfter (depth + 1) (ts ++ us) := by
    rw [openAfter_append, openAfter_append, hless, hz]
  rw [h, h] at hsame
  omega

end Nested

namespace Call

variable {call : Call} {ts : List Token}

theorem Balanced.openAfter_eq {closed : Nat} (h : Balanced closed ts) (depth : Nat) :
    openAfter (closed + depth) ts = depth := by
  induction h with
  | nil => exact Nat.zero_add depth
  | @opener closed t ts ho _ ih =>
    have step : t.depthAfter (closed + depth) = closed + 1 + depth := by
      rw [Token.depthAfter, if_pos ho]
      omega
    show openAfter (t.depthAfter (closed + depth)) ts = depth
    rw [step, ih]
  | @closer closed t ts hc _ ih =>
    have step : t.depthAfter (closed + 1 + depth) = closed + depth := by
      rw [Token.depthAfter, if_neg (by simp [not_isOpener_of_isCloser hc]), if_pos hc]
      omega
    show openAfter (t.depthAfter (closed + 1 + depth)) ts = depth
    rw [step, ih]
  | @other closed t ts ho hc _ _ ih =>
    have step : t.depthAfter (closed + depth) = closed + depth := by
      simp [Token.depthAfter, ho, hc]
    show openAfter (t.depthAfter (closed + depth)) ts = depth
    rw [step, ih]

theorem Balanced.nested (h : Balanced 0 ts) : Nested ts := by
  intro depth
  have he := h.openAfter_eq depth
  rwa [Nat.zero_add] at he

theorem nested_of_isString {t : Token} (h : isString t = true) : Nested [t] := by
  have hk : t.kind = .string := of_decide_eq_true h
  exact Nested.nil.cons_of_kind (by simp [hk])

theorem nested_boolean {t : Token} (h : t = ⟨.keyword, "True"⟩ ∨ t = ⟨.keyword, "False"⟩) :
    Nested [t] := by
  rcases h with rfl | rfl
  · exact Nested.nil.cons_of_kind (by decide)
  · exact Nested.nil.cons_of_kind (by decide)

theorem nested_comma (h : Nested ts) : Nested (comma :: ts) := h.cons (by decide) (by decide)

theorem nested_key {key : Token} (hk : isKey key = true) (h : Nested ts) : Nested (key :: ts) := by
  have hkind : key.kind = .identifier := of_decide_eq_true hk
  exact h.cons_of_kind (by simp [hkind])

theorem nested_assigned {key : Token} (hk : isKey key = true) (h : Nested ts) :
    Nested (key :: assignment :: ts) := by
  apply nested_key hk
  exact h.cons (by decide) (by decide)

theorem TrailingComma.nested (h : TrailingComma ts) : Nested ts := by
  cases h with
  | absent => exact .nil
  | present => exact nested_comma .nil

theorem nested_listing {values : List Token} (h : ∀ t ∈ values, isString t = true) :
    Nested (values.flatMap fun t => [comma, t]) := by
  induction values with
  | nil => exact .nil
  | cons t values ih =>
    obtain ⟨ht, hvalues⟩ := List.forall_mem_cons.1 h
    rw [List.flatMap_cons]
    exact (nested_comma (nested_of_isString ht)).append (ih hvalues)

theorem TypesForm.nested {values : List Token} (h : TypesForm values ts) : Nested ts := by
  cases h with
  | single hs => exact nested_of_isString hs
  | list hs _ ht =>
    obtain ⟨hfirst, hmore⟩ := List.forall_mem_cons.1 hs
    have inside := ((nested_of_isString hfirst).append (nested_listing hmore)).append ht.nested
    exact inside.parenthesized

theorem Setting.Form.nested {key : Token} {slot : Slot call} {s : Setting call}
    (h : Setting.Form key slot s ts) : Nested ts := by
  cases h with
  | pin hv | source hv | condition hv => exact nested_of_isString hv
  | preferred hv => exact nested_boolean hv
  | types ht => exact ht.nested

theorem Entry.Form.nested {e : Entry call} (h : Entry.Form e ts) : Nested ts := by
  cases h with
  | setting hk _ hs => exact nested_assigned hk hs.nested
  | unknown hk _ => exact nested_key hk .nil
  | unknownAssigned hk _ hb => exact nested_assigned hk hb.nested

/-- The arguments of a call close what they open. -/
theorem EntriesForm.nested {es : List (Entry call)} (h : EntriesForm es ts) : Nested ts := by
  induction h with
  | nil => exact .nil
  | cons he _ ih => exact (nested_comma he.nested).append ih

theorem callee_injective {other : Call} (h : call.callee = other.callee) : call = other := by
  revert h
  cases call <;> cases other <;> decide

end Call

/-- Lists are cut in one way at the first token that fails a test. -/
theorem append_cons_inj {p : Token → Bool} {as bs xs ys : List Token} {x y : Token}
    (has : ∀ t ∈ as, p t = true) (hx : p x = false) (hbs : ∀ t ∈ bs, p t = true)
    (hy : p y = false) (h : as ++ x :: xs = bs ++ y :: ys) : as = bs ∧ x = y ∧ xs = ys := by
  have hcut := congrArg (Cut.span p) h
  rw [Cut.span_append has (by simpa using hx), Cut.span_append hbs (by simpa using hy)] at hcut
  obtain ⟨hab, hxy⟩ := Cut.mk.inj hcut
  exact ⟨hab, List.cons.inj hxy⟩

/-- The tokens of a call statement around the two parentheses of its call. -/
@[ext]
structure CallLayout where
  /-- The blanks before the statement. -/
  lead : List Token
  call : Call
  /-- What parts the name that is called from its parenthesis. -/
  gap : List Token
  /-- The arguments. -/
  body : List Token
  /-- What follows the closing parenthesis. -/
  tail : List Token
  lead_isBlank : ∀ t ∈ lead, t.isBlank = true
  gap_isFiller : ∀ t ∈ gap, t.isFiller = true
  /-- Everywhere among the arguments the parenthesis before them is open. -/
  body_open : ∀ before after, body = before ++ after →
    openAfter 0 (openParenthesis :: before) ≠ 0
  /-- The parenthesis behind them closes it. -/
  body_closed : openAfter 0 (openParenthesis :: body ++ [closeParenthesis]) = 0
  /-- No line ends outside brackets before what follows is over. -/
  tail_unbroken : Unbroken 0 tail

namespace CallLayout

/-- The statement through its closing parenthesis. -/
def enclosed (l : CallLayout) : List Token :=
  l.lead ++ l.call.callee :: (l.gap ++ openParenthesis :: (l.body ++ [closeParenthesis]))

def tokens (l : CallLayout) : List Token := l.enclosed ++ l.tail

/-- The statement makes the declaration by what its parentheses enclose, whatever follows them. -/
def Declares (l : CallLayout) (d : Declaration) : Prop :=
  ∀ more, Call.Reads (l.call, l.enclosed ++ more) d

theorem tokens_eq (l : CallLayout) : l.tokens = l.lead ++ l.call.callee ::
    (l.gap ++ openParenthesis :: (l.body ++ closeParenthesis :: l.tail)) := by
  simp [tokens, enclosed]

/-- No other layout of the same tokens has its closing parenthesis further on. -/
theorem body_ne_append (l m : CallLayout) (more : List Token) :
    m.body ≠ l.body ++ closeParenthesis :: more := by
  intro he
  have hsplit : m.body = (l.body ++ [closeParenthesis]) ++ more := by
    rw [he, List.append_assoc]
    rfl
  exact m.body_open _ _ hsplit l.body_closed

/-- The tokens of a statement are laid out in one way only. -/
theorem eq_of_tokens {l m : CallLayout} (h : l.tokens = m.tokens) : l = m := by
  have hname : ∀ call : Call, call.callee.isBlank = false := fun _ => rfl
  rw [tokens_eq, tokens_eq] at h
  obtain ⟨hlead, hcallee, h⟩ := append_cons_inj l.lead_isBlank (hname _) m.lead_isBlank (hname _) h
  obtain ⟨hgap, -, h⟩ := append_cons_inj l.gap_isFiller rfl m.gap_isFiller rfl h
  have hcall : l.call = m.call := Call.callee_injective hcallee
  obtain ⟨hbody, htail⟩ : l.body = m.body ∧ l.tail = m.tail := by
    obtain ⟨between, hb, ht⟩ | ⟨between, hb, ht⟩ := List.append_eq_append_iff.1 h
    · cases between with
      | nil => exact ⟨by rw [hb, List.append_nil], (List.cons.inj ht).2⟩
      | cons t more =>
        obtain ⟨rfl, -⟩ := List.cons.inj ht
        exact absurd hb (body_ne_append l m more)
    · cases between with
      | nil => exact ⟨by rw [hb, List.append_nil], (List.cons.inj ht).2.symm⟩
      | cons t more =>
        obtain ⟨rfl, -⟩ := List.cons.inj ht
        exact absurd hb (body_ne_append m l more)
  exact CallLayout.ext hlead hcall hgap hbody htail

end CallLayout

/-- A token that is no filler parts the tokens before and after it as it does without filler. -/
theorem exists_of_significant_eq {ts us ws : List Token} {v : Token}
    (h : significant ts = us ++ v :: ws) :
    ∃ before after, ts = before ++ v :: after ∧ significant before = us ∧
      significant after = ws := by
  obtain ⟨front, back, rfl, hf, hb⟩ := List.filter_eq_append_iff.1 h
  obtain ⟨gap, after, rfl, hgap, -, ha⟩ := List.filter_eq_cons_iff.1 hb
  refine ⟨front ++ gap, after, (List.append_assoc ..).symm, ?_, ha⟩
  have hg : significant gap = [] := List.filter_eq_nil_iff.2 hgap
  rw [significant_append, hg, List.append_nil]
  exact hf

theorem isFiller_of_significant_eq_nil {ts : List Token} (h : significant ts = []) :
    ∀ t ∈ ts, t.isFiller = true := by
  intro t ht
  simpa using List.filter_eq_nil_iff.1 h t ht

theorem significant_of_isFiller {ts : List Token} (h : ∀ t ∈ ts, t.isFiller = true) :
    significant ts = [] := by
  refine List.filter_eq_nil_iff.2 fun t ht => ?_
  simp [h t ht]

namespace CallLayout

variable (l : CallLayout)

theorem significant_enclosed : significant l.enclosed =
    l.call.callee :: openParenthesis :: significant l.body ++ [closeParenthesis] := by
  have hlead : significant l.lead = [] :=
    significant_of_isFiller fun t ht => Token.isFiller_of_isBlank (l.lead_isBlank t ht)
  have hgap : significant l.gap = [] := significant_of_isFiller l.gap_isFiller
  have hname : l.call.callee.isFiller = false := rfl
  have hopen : openParenthesis.isFiller = false := rfl
  rw [enclosed, significant_append, hlead, List.nil_append, significant_cons hname,
    significant_append, hgap, List.nil_append, significant_cons hopen, significant_append]
  rfl

/-- Arguments that are spelled between the parentheses make the declaration. -/
theorem declares_of_form {first : Token} {es : List (Entry l.call)} {ts trailing : List Token}
    (hb : significant l.body = first :: ts ++ trailing) (hf : isString first = true)
    (hes : EntriesForm es ts) (ht : TrailingComma trailing) :
    l.Declares (.ofSettings first l.call (es.filterMap Entry.setting?)) := by
  intro more
  have spelled : Call.Form first es (significant (l.enclosed ++ more)) := by
    have he : significant (l.enclosed ++ more) = l.call.callee :: openParenthesis :: first :: ts ++
        trailing ++ closeParenthesis :: significant more := by
      rw [significant_append, l.significant_enclosed, hb]
      simp
    rw [he]
    exact .mk hf hes ht
  show (DeclarationReading.ofTokens l.call (l.enclosed ++ more)).result = _
  rw [DeclarationReading.ofTokens_of_form spelled]

/-- A statement whose parentheses enclose nested tokens. -/
def ofNested (lead : List Token) (call : Call) (gap body tail : List Token)
    (hl : ∀ t ∈ lead, t.isBlank = true) (hg : ∀ t ∈ gap, t.isFiller = true) (hb : Nested body)
    (hu : Unbroken 0
      (call.callee :: (gap ++ openParenthesis :: (body ++ closeParenthesis :: tail)))) :
    CallLayout where
  lead := lead
  call := call
  gap := gap
  body := body
  tail := tail
  lead_isBlank := hl
  gap_isFiller := hg
  body_open := by
    intro before after he
    subst he
    exact hb.openAfter_ne_zero 0
  body_closed := hb.parenthesized 0
  tail_unbroken := by
    have hgap : Nested gap := .of_significant (by rw [significant_of_isFiller hg]; exact .nil)
    have henclosed : Nested (call.callee :: (gap ++ (openParenthesis :: body ++
        [closeParenthesis]))) :=
      (hgap.append hb.parenthesized).cons_of_kind (by simp [Call.callee])
    have hsplit : call.callee :: (gap ++ openParenthesis :: (body ++ closeParenthesis :: tail)) =
        call.callee :: (gap ++ (openParenthesis :: body ++ [closeParenthesis])) ++ tail := by
      simp
    rw [hsplit, unbroken_append, henclosed] at hu
    exact hu.2

end CallLayout

/-- A statement that makes a declaration is laid out around the parentheses of its call. -/
theorem exists_callLayout {region next : Region} {call : Call} {tokens rest : List Token}
    {d : Declaration} (hf : region.Finds ⟨call.kind, tokens⟩ next rest)
    (hr : Call.Reads (call, tokens) d) :
    ∃ l : CallLayout, l.call = call ∧ l.tokens = tokens ∧ l.Declares d := by
  obtain ⟨-, -, lead, arguments, rfl, hl, hu, -⟩ := Region.finds_call_iff.1 hf
  obtain ⟨first, es, hform, rfl, -⟩ := DeclarationReading.form_of_ok hr
  have hlead : significant lead = [] :=
    significant_of_isFiller fun t ht => Token.isFiller_of_isBlank (hl t ht)
  have hname : call.callee.isFiller = false := rfl
  change Call.Form first es (significant (lead ++ call.callee :: arguments)) at hform
  rw [significant_append, hlead, List.nil_append, significant_cons hname] at hform
  generalize hs : call.callee :: significant arguments = spelled at hform
  cases hform with
  | @mk name ts trailing after hfirst hes ht =>
    have hopen : significant arguments =
        [] ++ openParenthesis :: (first :: ts ++ trailing ++ closeParenthesis :: after) :=
      (List.cons.inj hs).2
    -- the two parentheses among the tokens with their filler
    obtain ⟨gap, inner, rfl, hgap, hinner⟩ := exists_of_significant_eq hopen
    obtain ⟨body, tail, rfl, hbody, -⟩ := exists_of_significant_eq hinner
    have hnested : Nested body := by
      apply Nested.of_significant
      rw [hbody]
      exact ((nested_of_isString hfirst).append hes.nested).append ht.nested
    have hfiller : ∀ t ∈ gap, t.isFiller = true := isFiller_of_significant_eq_nil hgap
    let l := CallLayout.ofNested lead call gap body tail hl hfiller hnested hu
    exact ⟨l, rfl, l.tokens_eq, l.declares_of_form hbody hfirst hes ht⟩

end PackageRecipe
