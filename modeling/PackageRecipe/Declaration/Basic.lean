import PackageRecipe.Token.Basic

/-!
What a recipe declares: versions of the package and packages it depends on. A declaration keeps the
tokens it was written with, so quotation marks and prefixes stay as the author chose them. As text a
declaration has the one form that this library writes: a single line, one space after each comma, no
trailing comma.
-/
namespace PackageRecipe

/-- A keyword argument `key=value`. -/
structure Argument where
  key : Token
  value : Token
  deriving DecidableEq

/-- A `version` call. -/
structure Version where
  /-- The string that names the version. -/
  name : Token
  /-- What fixes the sources: a checksum, or a commit, tag or branch. -/
  pin : Option Argument
  /-- Where the sources are. -/
  source : Option Argument
  /-- `True` or `False`. -/
  preferred : Option Token
  deriving DecidableEq

/-- The texts of a version's keyword arguments: pin, source, then preference. -/
def Version.keywordTexts (v : Version) : List (String × String) :=
  (v.pin.toList ++ v.source.toList).map (fun a => (a.key.text, a.value.text)) ++
    v.preferred.toList.map fun p => ("preferred", p.text)

/-- A `depends_on` call. -/
structure Dependency where
  /-- The string that names the package and constrains its version. -/
  spec : Token
  /-- The strings that say when it is needed: to build, to link, to run. -/
  types : List Token
  /-- The string after `when`. -/
  condition : Option Token
  deriving DecidableEq

inductive Declaration where
  | version (v : Version)
  | dependency (d : Dependency)
  deriving DecidableEq

namespace Declaration

def version? : Declaration → Option Version
  | version v => some v
  | dependency _ => none

def dependency? : Declaration → Option Dependency
  | version _ => none
  | dependency d => some d

end Declaration

/-- One type stands alone, more stand in parentheses, and none need no argument. -/
def typesTexts : List Token → List (String × String)
  | [] => []
  | [t] => [("type", t.text)]
  | ts => [("type", "(" ++ ", ".intercalate (ts.map Token.text) ++ ")")]

/-- The texts of a dependency's keyword arguments: types, then condition. -/
def Dependency.keywordTexts (d : Dependency) : List (String × String) :=
  typesTexts d.types ++ d.condition.toList.map fun t => ("when", t.text)

/-- A call with its first argument and keyword arguments. -/
def callText (name first : String) (keywords : List (String × String)) : String :=
  name ++ "(" ++ first ++ String.join (keywords.map fun kv => ", " ++ kv.1 ++ "=" ++ kv.2) ++ ")"

def Version.text (v : Version) : String := callText "version" v.name.text v.keywordTexts

def Dependency.text (d : Dependency) : String := callText "depends_on" d.spec.text d.keywordTexts

end PackageRecipe
