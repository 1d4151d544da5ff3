import ConstraintScoring.Config.Setting

/-!
# TOML values

What a key of a document stands for, as far as a configuration can tell values apart.
-/

namespace ConstraintScoring.Toml

inductive Value where
  | text (s : String)
  | flag (b : Bool)
  /-- An integer or a floating point number. -/
  | number
  /-- A date, a time of day or both, by its text. -/
  | moment (s : String)
  | array (items : List Value)
  | table (entries : List (String × Value))
deriving Inhabited

namespace Value

/-- The key that the text of a moment has where a moment is read as a table. -/
def momentKey : String := "$__toml_private_datetime"

def entries? : Value → Option (List (String × Value))
  | table entries => some entries
  | moment s => some [(momentKey, text s)]
  | _ => none

def text? : Value → Option String
  | text s => some s
  | _ => none

def flag? : Value → Option Bool
  | flag b => some b
  | _ => none

def isEmptyCollection : Value → Bool
  | array items => items.isEmpty
  | table entries => entries.isEmpty
  | _ => false

/-- An alternative is a text, or a table with the name as its only key and nothing in it. -/
def choice? : Value → Option String
  | text s => some s
  | table [(name, content)] => if content.isEmptyCollection then some name else none
  | _ => none

instance : Setting Value := ⟨entries?, text?, flag?, choice?⟩

end Value

end ConstraintScoring.Toml
