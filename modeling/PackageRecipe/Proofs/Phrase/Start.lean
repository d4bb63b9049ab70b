import PackageRecipe.Proofs.Phrase.Extension
import PackageRecipe.Proofs.Phrase.Remainder

/-!
Where the statements of the body start, said without phrases. A scan over the tokens keeps whether a
statement is under way and how many brackets it has open; the tokens that it meets between
statements are the ones that statements begin with. Phrases are cut at the same places, so a text
that is put together from pieces can be judged piece by piece.
-/
namespace PackageRecipe

/-- Where a scan of the body stands. -/
inductive Place where
  /-- Between statements. -/
  | outside
  /-- In a statement that has this many brackets open. -/
  | inside (depth : Nat)
  deriving DecidableEq

namespace Place

/-- Where the scan stands after one more token. -/
def next : Place → Token → Place
  | outside, t => if t.isFiller then outside else inside (t.depthAfter 0)
  | inside depth, t => if t.isBreak && depth = 0 then outside else inside (t.depthAfter depth)

/-- Where the scan stands after more tokens. -/
def after (place : Place) (ts : List Token) : Place := ts.foldl next place

/-- The token starts a statement. -/
def starts : Place → Token → Bool
  | outside, t => !t.isFiller
  | inside _, _ => false

/-- The tokens that start a statement. -/
def heads (place : Place) : List Token → List Token
  | [] => []
  | t :: ts => if place.starts t then t :: (place.next t).heads ts else (place.next t).heads ts

theorem after_append (place : Place) (ts us : List Token) :
    place.after (ts ++ us) = (place.after ts).after us :=
  List.foldl_append

theorem heads_append (place : Place) (ts us : List Token) :
    place.heads (ts ++ us) = place.heads ts ++ (place.after ts).heads us := by
  induction ts generalizing place with
  | nil => rfl
  | cons t ts ih =>
    rw [List.cons_append, heads, heads, ih]
    split
    · rfl
    · rfl

theorem next_outside_of_isFiller {t : Token} (h : t.isFiller = true) : outside.next t = outside :=
  if_pos h

/-- Blanks and comments start nothing. -/
theorem outside_of_isFiller {ts : List Token} (h : ∀ t ∈ ts, t.isFiller = true) :
    outside.heads ts = [] ∧ outside.after ts = outside := by
  induction ts with
  | nil => exact ⟨rfl, rfl⟩
  | cons t ts ih =>
    obtain ⟨ht, hts⟩ := List.forall_mem_cons.1 h
    obtain ⟨hheads, hafter⟩ := ih hts
    have hs : ¬ outside.starts t = true := by simp [starts, ht]
    constructor
    · rw [heads, if_neg hs, next_outside_of_isFiller ht, hheads]
    · show (outside.next t).after ts = outside
      rw [next_outside_of_isFiller ht, hafter]

/-- A statement starts no other. -/
theorem inside_of_unbroken {depth : Nat} {ts : List Token} (h : Unbroken depth ts) :
    (inside depth).heads ts = [] ∧ (inside depth).after ts = inside (openAfter depth ts) := by
  induction ts generalizing depth with
  | nil => exact ⟨rfl, rfl⟩
  | cons t ts ih =>
    obtain ⟨ht, hts⟩ := h
    have hn : (inside depth).next t = inside (t.depthAfter depth) := by
      refine if_neg fun hb => ?_
      obtain ⟨hb, hd⟩ := Bool.and_eq_true_iff.1 hb
      exact ht hb (of_decide_eq_true hd)
    obtain ⟨hheads, hafter⟩ := ih hts
    constructor
    · rw [heads, if_neg (by simp [starts]), hn, hheads]
    · show ((inside depth).next t).after ts = _
      rw [hn, hafter]
      rfl

/-- The scan goes on from a line break outside brackets as it does between statements. -/
theorem heads_inside_of_isBreak {ts : List Token} (h : ∀ t ∈ ts.head?, t.isBreak = true) :
    (inside 0).heads ts = outside.heads ts := by
  cases ts with
  | nil => rfl
  | cons t ts =>
    have hb : t.isBreak = true := h t rfl
    have hf : t.isFiller = true := Token.isFiller_of_isBreak hb
    have hi : (inside 0).next t = outside := if_pos (by simp [hb])
    rw [heads, heads, if_neg (by simp [starts]), if_neg (by simp [starts, hf]), hi,
      next_outside_of_isFiller hf]

/-- In a statement no more starts than there would between statements. -/
theorem heads_inside_suffix (ts : List Token) : (inside 0).heads ts <:+ outside.heads ts := by
  induction ts with
  | nil => exact List.suffix_rfl
  | cons t ts ih =>
    rw [heads, if_neg (by simp [starts]), heads]
    -- a break makes the scans meet, and so does a token that starts a statement outside
    by_cases hf : t.isFiller = true
    · rw [if_neg (by simp [starts, hf]), next_outside_of_isFiller hf]
      by_cases hb : t.isBreak = true
      · have hi : (inside 0).next t = outside := if_pos (by simp [hb])
        exact hi ▸ List.suffix_rfl
      · have hi : (inside 0).next t = inside 0 := by
          rw [next, if_neg (by simp [hb]), Token.depthAfter_of_isFiller hf]
        rw [hi]
        exact ih
    · have hb : ¬ (t.isBreak && decide (0 = 0)) = true := by
        intro hb
        exact hf (Token.isFiller_of_isBreak (by simpa using hb))
      have hi : (inside 0).next t = outside.next t := (if_neg hb).trans (if_neg hf).symm
      rw [if_pos (by simp [starts, hf]), hi]
      exact List.suffix_cons _ _

end Place

namespace Region

variable {p : Phrase} {next : Region} {rest : List Token}

/-- What a phrase of the body looks like to a scan: it starts a call if it is one, and ends where
the next statement may start. -/
theorem Finds.heads (h : body.Finds p next rest) :
    (∀ call : Call, call.callee ∈ Place.outside.heads p.tokens ↔ p.kind = call.kind) ∧
      (Place.outside.after p.tokens = .outside ∨
        ∃ depth, Place.outside.after p.tokens = .inside depth ∧ EndsStatement depth rest) := by
  obtain ⟨lead, core, ht, hl, hk⟩ := h
  have hlead : ∀ t ∈ lead, t.isFiller = true := fun t hm => Token.isFiller_of_isBlank (hl t hm)
  obtain ⟨hheads, hafter⟩ := Place.outside_of_isFiller hlead
  rw [ht, Place.heads_append, Place.after_append, hheads, hafter, List.nil_append]
  generalize p.kind = kind at hk ⊢
  cases hk with
  | @remarks t ts _ hc hf hlast hr =>
    have hcore : ∀ u ∈ t :: ts, u.isFiller = true :=
      List.forall_mem_cons.2 ⟨Token.isFiller_of_isComment hc, hf⟩
    obtain ⟨hcore, hend⟩ := Place.outside_of_isFiller hcore
    refine ⟨fun call => ?_, .inl hend⟩
    rw [hcore]
    cases call <;> simp [Call.kind]
  | @statement t ts _ hb hc hu he =>
    have hf : t.isFiller = false := by rw [Token.isFiller, hb, hc]; rfl
    have hn : Place.outside.next t = .inside (t.depthAfter 0) := if_neg (by simp [hf])
    obtain ⟨hinside, hend⟩ := Place.inside_of_unbroken hu.2
    refine ⟨fun call => ?_, .inr ⟨openAfter 0 (t :: ts), ?_, he⟩⟩
    · rw [Place.heads, if_pos (by simp [Place.starts, hf]), hn, hinside, List.mem_singleton,
        statementKind_eq_kind_iff, eq_comm]
    · show (Place.outside.next t).after ts = _
      rw [hn, hend]
      rfl

/-- Behind a phrase the scan goes on as it does between statements, before what the phrase ends
before. -/
theorem Finds.heads_after (h : body.Finds p next rest) {other : List Token}
    (hb : ∀ t ∈ other.head?, t.isBreak = true) (he : rest = [] → other = []) :
    (Place.outside.after p.tokens).heads other = Place.outside.heads other := by
  obtain ⟨-, ho | ⟨depth, hi, hs⟩⟩ := h.heads
  · rw [ho]
  · rw [hi]
    cases rest with
    | nil => rw [he rfl]; rfl
    | cons t ts =>
      obtain rfl : depth = 0 := (hs t rfl).2
      exact Place.heads_inside_of_isBreak hb

end Region

namespace Phrased

variable {ps : List Phrase} {next : Region} {rest : List Token}

/-- The calls among the phrases of the body are the statements that start with their names. -/
theorem exists_call_iff (h : Phrased .body ps next rest) (hr : ∀ t ∈ rest, t.isBlank = true)
    (call : Call) : call.callee ∈ Place.outside.heads (ps.flatMap Phrase.tokens ++ rest) ↔
      ∃ p ∈ ps, p.kind = call.kind := by
  induction ps with
  | nil =>
    have hf : ∀ t ∈ rest, t.isFiller = true := fun t ht => Token.isFiller_of_isBlank (hr t ht)
    simp [(Place.outside_of_isFiller hf).1]
  | cons p ps ih =>
    obtain ⟨middle, hp, hps⟩ := cons_iff.1 h
    obtain rfl := hp.next_eq_body
    have hafter : (Place.outside.after p.tokens).heads (ps.flatMap Phrase.tokens ++ rest) =
        Place.outside.heads (ps.flatMap Phrase.tokens ++ rest) := by
      obtain ⟨-, ho | ⟨depth, hi, hs⟩⟩ := hp.heads
      · rw [ho]
      · exact hp.heads_after (fun t ht => (hs t ht).1) id
    rw [List.flatMap_cons, List.append_assoc, Place.heads_append, List.mem_append, hafter,
      hp.heads.1, ih hps]
    simp

end Phrased

/-- Whatever tokens follow the class header, they fall into phrases. -/
theorem exists_phrased_body (tokens : List Token) : ∃ ps blanks,
    tokens = ps.flatMap Phrase.tokens ++ blanks ∧ Phrased .body ps .body blanks ∧
      ∀ t ∈ blanks, t.isBlank = true := by
  obtain ⟨phrases, h⟩ := Phrase.exists_ofTokensIn_body tokens
  obtain ⟨ps, next, blanks, hps, hb, ht, -⟩ := Phrase.ofTokensIn_eq_ok_iff.1 h
  obtain rfl := hps.kinds_of_body.1
  exact ⟨ps, blanks, ht, hps, hb⟩

end PackageRecipe
