import PackageRecipe.Proofs.Recipe.Frame

/-!
The frame of a recipe that is written from nothing but its declarations. Before them stand an import
and a class with its homepage, behind them a method if there is to be one, each on lines of its own
behind the same indentation.
-/
namespace PackageRecipe

open Call Lexeme

/-- The text of a recipe up to its homepage. -/
def recipeStart (ws : String) : String :=
  "from spack.package import *\n\n\nclass Pkg(Package):\n" ++ ws ++
    "homepage = \"https://example.org\""

/-- The text of a recipe behind its declarations. -/
def recipeEnd (ws : String) (method : Bool) : String :=
  (if method then
    "\n\n" ++ ws ++ "def install(self, spec, prefix):\n" ++ ws ++ ws ++ "pass"
  else "") ++ "\n"

/-- Tokens that fill a line. -/
structure IsLine (ts : List Token) : Prop where
  lexed : ∀ {rest : List Char}, rest.head? = some '\n' → Lexed ts rest
  head : ∃ c cs, (sourceText ts).toList = c :: cs ∧ isSpace c = false ∧ isLineBreak c = false
  noBreak : ∀ t ∈ ts, t.isBreak = false
  closed : openAfter 0 ts = 0

/-- A text with a line feed behind it is a line if it begins with no blank, breaks nowhere and
closes its brackets. -/
theorem isLine_of_ofSource {source : String} {t : Token} {ts : List Token}
    (h : Token.ofSource source = .ok (t :: ts ++ [lineFeed]))
    (hh : (t.text.toList.head?.any fun c => !isSpace c && !isLineBreak c) = true)
    (hn : ∀ u ∈ t :: ts, u.isBreak = false) (ho : openAfter 0 (t :: ts) = 0) :
    IsLine (t :: ts) := by
  have hl := (lexed_append.1 (Token.ofSource_eq_ok_iff.1 h).2).1
  refine ⟨fun hr => hl.of_head? fun c hc => hr.symm.trans hc, ?_, hn, ho⟩
  obtain ⟨c, hc, hs⟩ := (Option.any_eq_true _ _).1 hh
  obtain ⟨cs, he⟩ := List.head?_eq_some_iff.1 hc
  refine ⟨c, cs ++ (sourceText ts).toList, ?_, by simpa using hs⟩
  rw [sourceText_cons, String.toList_append, he, List.cons_append]

namespace IsLine

variable {margin ts : List Token}

theorem lexed_append (h : IsLine ts) (hm : IsMargin margin) {rest : List Char}
    (hr : rest.head? = some '\n') : Lexed (margin ++ ts) rest := by
  obtain ⟨c, cs, hc, hs, hb⟩ := h.head
  refine PackageRecipe.lexed_append.2 ⟨?_, h.lexed hr⟩
  rw [hc]
  exact hm.lexed hs hb _

/-- A line is a statement of the body. -/
theorem finds {t : Token} (h : IsLine (t :: ts)) (hb : t.isBlank = false)
    (hc : t.isComment = false) (hm : IsMargin margin) {rest : List Token}
    (hr : ∀ u ∈ rest.head?, u.isBreak = true) :
    Region.body.Finds ⟨statementKind t, margin ++ t :: ts⟩ .body rest :=
  ⟨margin, t :: ts, rfl, hm.isBlank, .statement hb hc (unbroken_of_not_isBreak h.noBreak)
    fun u hu => ⟨hr u hu, h.closed⟩⟩

end IsLine

/-- The white space that a line begins with. -/
def indentation (ws : String) : List Token := if ws = "" then [] else [⟨.whitespace, ws⟩]

/-- Line breaks with the indentation behind them. -/
def lineMargin (breaks ws : String) : List Token := ⟨.newline, breaks⟩ :: indentation ws

section Indentation

variable {breaks ws : String}

theorem sourceText_indentation (ws : String) : sourceText (indentation ws) = ws := by
  unfold indentation
  split
  · rename_i h
    rw [h, sourceText_nil]
  · rw [sourceText_cons, sourceText_nil, String.append_empty]

theorem sourceText_lineMargin (breaks ws : String) :
    sourceText (lineMargin breaks ws) = breaks ++ ws := by
  rw [lineMargin, sourceText_cons, sourceText_indentation]

theorem head?_lineMargin_append (hb : breaks.toList.head? = some '\n') (ts : List Token)
    (rest : List Char) :
    ((sourceText (lineMargin breaks ws ++ ts)).toList ++ rest).head? = some '\n' := by
  obtain ⟨cs, hc⟩ := List.head?_eq_some_iff.1 hb
  rw [sourceText_append, sourceText_lineMargin, String.toList_append, String.toList_append, hc]
  rfl

theorem kind_indentation (ws : String) : ∀ t ∈ indentation ws, t.kind = .whitespace := by
  unfold indentation
  split
  · nofun
  · simp

theorem lexed_indentation (hws : ∀ c ∈ ws.toList, isSpace c = true) :
    Lexed (indentation ws) [] := by
  unfold indentation
  split
  · trivial
  · rename_i h
    have hn : ws.toList ≠ [] := fun he => h (String.toList_eq_nil_iff.1 he)
    exact ⟨Token.endsBefore_of_spaces rfl hn hws nofun, trivial⟩

theorem isMargin_lineMargin (hws : ∀ c ∈ ws.toList, isSpace c = true) (hn : breaks.toList ≠ [])
    (hb : ∀ c ∈ breaks.toList, isLineBreak c = true) : IsMargin (lineMargin breaks ws) :=
  isMargin_cons rfl hn hb ⟨[], lexed_indentation hws⟩ (kind_indentation ws)

end Indentation

def importLine : List Token := [⟨.keyword, "from"⟩, Call.space, ⟨.identifier, "spack"⟩,
  ⟨.delimiter, "."⟩, ⟨.identifier, "package"⟩, Call.space, ⟨.keyword, "import"⟩, Call.space,
  ⟨.operator, "*"⟩]

def classLine : List Token := [⟨.keyword, "class"⟩, Call.space, ⟨.identifier, "Pkg"⟩,
  openParenthesis, ⟨.identifier, "Package"⟩, closeParenthesis, ⟨.delimiter, ":"⟩]

def homepageLine : List Token := [⟨.identifier, "homepage"⟩, Call.space, assignment, Call.space,
  ⟨.string, "\"https://example.org\""⟩]

def methodLine : List Token := [⟨.keyword, "def"⟩, Call.space, ⟨.identifier, "install"⟩,
  openParenthesis, ⟨.identifier, "self"⟩, comma, Call.space, ⟨.identifier, "spec"⟩, comma,
  Call.space, ⟨.identifier, "prefix"⟩, closeParenthesis, ⟨.delimiter, ":"⟩]

def passLine : List Token := [⟨.keyword, "pass"⟩]

theorem isLine_importLine : IsLine importLine := by
  have h : Token.ofSource "from spack.package import *\n" = .ok (importLine ++ [lineFeed]) := by cbv
  exact isLine_of_ofSource h (by decide) (by decide) (by decide)

theorem isLine_classLine : IsLine classLine := by
  have h : Token.ofSource "class Pkg(Package):\n" = .ok (classLine ++ [lineFeed]) := by cbv
  exact isLine_of_ofSource h (by decide) (by decide) (by decide)

theorem isLine_homepageLine : IsLine homepageLine := by
  have h : Token.ofSource "homepage = \"https://example.org\"\n" =
      .ok (homepageLine ++ [lineFeed]) := by
    cbv
  exact isLine_of_ofSource h (by decide) (by decide) (by decide)

theorem isLine_methodLine : IsLine methodLine := by
  have h : Token.ofSource "def install(self, spec, prefix):\n" =
      .ok (methodLine ++ [lineFeed]) := by
    cbv
  exact isLine_of_ofSource h (by decide) (by decide) (by decide)

theorem isLine_passLine : IsLine passLine := by
  have h : Token.ofSource "pass\n" = .ok (passLine ++ [lineFeed]) := by cbv
  exact isLine_of_ofSource h (by decide) (by decide) (by decide)

/-- The phrases up to the homepage. -/
def startPhrases (ws : String) : List Phrase :=
  [⟨.imports, importLine⟩, ⟨.classHeader, lineMargin "\n\n\n" "" ++ classLine⟩,
    ⟨.homepage, lineMargin "\n" ws ++ homepageLine⟩]

/-- The phrases of the method, if there is to be one. -/
def endPhrases (ws : String) (method : Bool) : List Phrase :=
  if method then
    [⟨.other, lineMargin "\n\n" ws ++ methodLine⟩, ⟨.other, lineMargin "\n" (ws ++ ws) ++ passLine⟩]
  else []

theorem finds_imports {rest : List Token} (hr : ∀ t ∈ rest.head?, t.isBreak = true) :
    Region.preamble.Finds ⟨.imports, importLine⟩ .preamble rest := by
  refine ⟨[], importLine, rfl, nofun, .imports (.inr rfl) ?_ ?_⟩
  · exact unbroken_of_not_isBreak isLine_importLine.noBreak
  · exact fun t ht => ⟨hr t ht, isLine_importLine.closed⟩

theorem finds_classHeader (rest : List Token) :
    Region.preamble.Finds ⟨.classHeader, lineMargin "\n\n\n" "" ++ classLine⟩ .body rest := by
  have hf : HeaderForm 0 (Attempt.header 0 classLine).cut.taken := Attempt.headerForm_header rfl
  exact ⟨lineMargin "\n\n\n" "", classLine, rfl, by decide, .classHeader rfl hf⟩

theorem isMargin_lineFeeds {breaks ws : String} (hb : breaks ∈ ["\n", "\n\n", "\n\n\n"])
    (hws : ∀ c ∈ ws.toList, isSpace c = true) : IsMargin (lineMargin breaks ws) := by
  simp only [List.mem_cons, List.not_mem_nil, or_false] at hb
  rcases hb with rfl | rfl | rfl
  all_goals exact isMargin_lineMargin hws (by decide) (by simp [isLineBreak])

theorem isBreak_head?_endPhrases (ws : String) (method : Bool) :
    ∀ t ∈ ((endPhrases ws method).flatMap Phrase.tokens ++ [lineFeed]).head?, t.isBreak = true := by
  cases method with
  | false | true =>
    rintro _ ⟨⟩
    rfl

section Frame

variable {ws : String} (hws : ∀ c ∈ ws.toList, isSpace c = true)
include hws

theorem phrased_startPhrases {rest : List Token} (hr : ∀ t ∈ rest.head?, t.isBreak = true) :
    Phrased .preamble (startPhrases ws) .body rest := by
  have hm : IsMargin (lineMargin "\n" ws) := isMargin_lineFeeds (by simp) hws
  have hc : IsMargin (lineMargin "\n\n\n" "") := isMargin_lineFeeds (by simp) nofun
  refine .cons (finds_imports ?_) (.cons (finds_classHeader _)
    (.cons (isLine_homepageLine.finds rfl rfl hm hr) .nil))
  rw [List.flatMap_cons, List.append_assoc]
  exact hc.isBreak_head?_append _

theorem lexed_startPhrases {rest : List Char} (hr : rest.head? = some '\n') :
    Lexed ((startPhrases ws).flatMap Phrase.tokens) rest := by
  have hm : IsMargin (lineMargin "\n" ws) := isMargin_lineFeeds (by simp) hws
  have hc : IsMargin (lineMargin "\n\n\n" "") := isMargin_lineFeeds (by simp) nofun
  rw [startPhrases, List.flatMap_cons, List.flatMap_cons, List.flatMap_cons, List.flatMap_nil,
    List.append_nil]
  refine lexed_append.2 ⟨isLine_importLine.lexed ?_, lexed_append.2
    ⟨isLine_classLine.lexed_append hc ?_, isLine_homepageLine.lexed_append hm hr⟩⟩
  · rw [List.append_assoc]
    exact head?_lineMargin_append rfl _ _
  · exact head?_lineMargin_append rfl _ _

theorem forall_isSpace_append : ∀ c ∈ (ws ++ ws).toList, isSpace c = true := by
  rw [String.toList_append]
  exact List.forall_mem_append.2 ⟨hws, hws⟩

theorem phrased_endPhrases (method : Bool) {rest : List Token}
    (hr : ∀ t ∈ rest.head?, t.isBreak = true) :
    Phrased .body (endPhrases ws method) .body rest := by
  cases method with
  | false => exact .nil
  | true =>
    have hm : IsMargin (lineMargin "\n\n" ws) := isMargin_lineFeeds (by simp) hws
    have hp : IsMargin (lineMargin "\n" (ws ++ ws)) :=
      isMargin_lineFeeds (by simp) (forall_isSpace_append hws)
    refine .cons (isLine_methodLine.finds rfl rfl hm ?_)
      (.cons (isLine_passLine.finds rfl rfl hp hr) .nil)
    rw [List.flatMap_cons, List.append_assoc, List.append_assoc]
    exact hp.isBreak_head?_append _

theorem lexed_endPhrases (method : Bool) :
    Lexed ((endPhrases ws method).flatMap Phrase.tokens ++ [lineFeed]) [] := by
  have hl : Lexed [lineFeed] [] := ⟨Token.endsBefore_of_lineBreaks rfl (by decide)
    (by simp [lineFeed, isLineBreak]) nofun, trivial⟩
  cases method with
  | false => exact hl
  | true =>
    have hm : IsMargin (lineMargin "\n\n" ws) := isMargin_lineFeeds (by simp) hws
    have hp : IsMargin (lineMargin "\n" (ws ++ ws)) :=
      isMargin_lineFeeds (by simp) (forall_isSpace_append hws)
    have hpass : Lexed (lineMargin "\n" (ws ++ ws) ++ passLine)
        ((sourceText [lineFeed]).toList ++ []) :=
      isLine_passLine.lexed_append hp rfl
    rw [endPhrases, if_pos rfl, List.flatMap_cons, List.flatMap_cons, List.flatMap_nil,
      List.append_nil, List.append_assoc]
    refine lexed_append.2 ⟨isLine_methodLine.lexed_append hm ?_, lexed_append.2 ⟨hpass, hl⟩⟩
    rw [List.append_assoc]
    exact head?_lineMargin_append rfl _ _

/-- The text around the declarations of a rendered recipe. -/
def recipeFrame (method : Bool) : Frame where
  before := startPhrases ws
  lead := lineMargin "\n\n" ws
  margin := lineMargin "\n" ws
  texts := endPhrases ws method
  blanks := [lineFeed]
  before_isText := by simp [startPhrases, Phrase.isText, Phrase.call?]
  before_phrased := fun _ hr _ _ => phrased_startPhrases hws hr
  isMargin_lead := isMargin_lineFeeds (by simp) hws
  isMargin_margin := isMargin_lineFeeds (by simp) hws
  texts_isText := by cases method <;> simp [endPhrases, Phrase.isText, Phrase.call?]
  texts_phrased := phrased_endPhrases hws method (by simp [lineFeed, Token.isBreak])
  texts_head := isBreak_head?_endPhrases ws method
  blanks_isBlank := by decide

end Frame

theorem sourceText_startPhrases (ws : String) :
    sourceText ((startPhrases ws).flatMap Phrase.tokens) = recipeStart ws := by
  have hi : sourceText importLine = "from spack.package import *" := by
    simp [importLine, Call.space]
  have hc : sourceText classLine = "class Pkg(Package):" := by
    simp [classLine, Call.space, openParenthesis, closeParenthesis]
  have hh : sourceText homepageLine = "homepage = \"https://example.org\"" := by
    simp [homepageLine, Call.space, assignment]
  have hm : sourceText (lineMargin "\n\n\n" "") = "\n\n\n" := by simp [lineMargin, indentation]
  have lines : "from spack.package import *\n\n\nclass Pkg(Package):\n" =
      "from spack.package import *" ++ "\n\n\n" ++ "class Pkg(Package):" ++ "\n" := by simp
  rw [startPhrases, List.flatMap_cons, List.flatMap_cons, List.flatMap_cons, List.flatMap_nil,
    List.append_nil, sourceText_append, sourceText_append, sourceText_append, sourceText_append,
    hi, hm, hc, hh, sourceText_lineMargin]
  refine Eq.trans ?_
    (congrArg (fun s => s ++ ws ++ "homepage = \"https://example.org\"") lines).symm
  simp only [String.append_assoc]

theorem sourceText_endPhrases (ws : String) (method : Bool) :
    sourceText ((endPhrases ws method).flatMap Phrase.tokens ++ [lineFeed]) =
      recipeEnd ws method := by
  have hm : sourceText methodLine = "def install(self, spec, prefix):" := by
    simp [methodLine, Call.space, openParenthesis, comma, closeParenthesis]
  have hp : sourceText passLine = "pass" := by simp [passLine]
  have line : "def install(self, spec, prefix):\n" =
      "def install(self, spec, prefix):" ++ "\n" := by
    simp
  cases method with
  | false => rfl
  | true =>
    rw [endPhrases, if_pos rfl, List.flatMap_cons, List.flatMap_cons, List.flatMap_nil,
      List.append_nil, recipeEnd, if_pos rfl, line]
    simp only [sourceText_append, sourceText_lineMargin, hm, hp, lineFeed, sourceText_cons,
      sourceText_nil, String.append_empty, String.append_assoc]

end PackageRecipe
