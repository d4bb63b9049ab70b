import PackageRecipe.Call.Arguments

/-!
The written form of a call, as a grammar over its tokens without filler. `Entry.Form e ts` says that
the tokens `ts` spell the argument `e`, and `Call.Form` puts arguments together to a call.
-/
namespace PackageRecipe.Call

/-- Tokens that close the `depth` brackets open before them and all that they open themselves, with
no comma outside brackets. -/
inductive Balanced : Nat → List Token → Prop where
  | nil : Balanced 0 []
  | opener {depth : Nat} {t : Token} {ts : List Token} :
      t.isOpener = true → Balanced (depth + 1) ts → Balanced depth (t :: ts)
  | closer {depth : Nat} {t : Token} {ts : List Token} :
      t.isCloser = true → Balanced depth ts → Balanced (depth + 1) (t :: ts)
  | other {depth : Nat} {t : Token} {ts : List Token} :
      t.isOpener = false → t.isCloser = false → (depth = 0 → t.isDelimiter "," = false) →
      Balanced depth ts → Balanced depth (t :: ts)

def comma : Token := ⟨.delimiter, ","⟩

def assignment : Token := ⟨.delimiter, "="⟩

def openParenthesis : Token := ⟨.delimiter, "("⟩

def closeParenthesis : Token := ⟨.delimiter, ")"⟩

/-- The comma that may stand before a closing parenthesis. -/
inductive TrailingComma : List Token → Prop where
  | absent : TrailingComma []
  | present : TrailingComma [comma]

/-- The types of a dependency as they may be written. -/
inductive TypesForm : List Token → List Token → Prop where
  | single {t : Token} : isString t = true → TypesForm [t] [t]
  | list {t : Token} {ts trailing : List Token} :
      (∀ u ∈ t :: ts, isString u = true) → (t :: ts).length ≤ typeLimit → TrailingComma trailing →
      TypesForm (t :: ts)
        (openParenthesis :: t :: ts.flatMap (fun u => [comma, u]) ++ trailing ++ [closeParenthesis])

/-- The value that sets a slot under a key. -/
inductive Setting.Form (key : Token) : {call : Call} → Slot call → Setting call → List Token → Prop
    where
  | pin {value : Token} : isString value = true → Form key .pin (.pin ⟨key, value⟩) [value]
  | source {value : Token} : isString value = true → Form key .source (.source ⟨key, value⟩) [value]
  | preferred {value : Token} :
      value = ⟨.keyword, "True"⟩ ∨ value = ⟨.keyword, "False"⟩ →
      Form key .preferred (.preferred value) [value]
  | types {values ts : List Token} : TypesForm values ts → Form key .types (.types values) ts
  | condition {value : Token} :
      isString value = true → Form key .condition (.condition value) [value]

/-- An argument without the comma before it. -/
inductive Entry.Form {call : Call} : Entry call → List Token → Prop where
  | setting {key : Token} {slot : Slot call} {s : Setting call} {ts : List Token} :
      isKey key = true → Slot.ofKey? call key.text = some slot → Setting.Form key slot s ts →
      Form (.setting s) (key :: assignment :: ts)
  | unknown {key : Token} :
      isKey key = true → Slot.ofKey? call key.text = none → Form (.unknown key) [key]
  | unknownAssigned {key : Token} {ts : List Token} :
      isKey key = true → Slot.ofKey? call key.text = none → Balanced 0 ts →
      Form (.unknown key) (key :: assignment :: ts)

/-- Arguments, each after a comma. -/
inductive EntriesForm {call : Call} : List (Entry call) → List Token → Prop where
  | nil : EntriesForm [] []
  | cons {e : Entry call} {es : List (Entry call)} {ts us : List Token} :
      Entry.Form e ts → EntriesForm es us → EntriesForm (e :: es) (comma :: ts ++ us)

/-- A call with its first argument and the others, and any tokens after it. The first token stands
for the name that is called. -/
inductive Form {call : Call} (first : Token) (es : List (Entry call)) : List Token → Prop where
  | mk {callee : Token} {ts trailing rest : List Token} :
      isString first = true → EntriesForm es ts → TrailingComma trailing →
      Form first es
        (callee :: openParenthesis :: first :: ts ++ trailing ++ closeParenthesis :: rest)

end PackageRecipe.Call
