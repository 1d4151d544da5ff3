/-!
# Settings

A configuration text in any notation gives a tree of settings, and a place of the tree is read as
what is expected there: as a table, a text, a flag or the choice of a name.
-/

namespace ConstraintScoring

class Setting (N : Type) where
  entries? : N → Option (List (String × N))
  text? : N → Option String
  flag? : N → Option Bool
  /-- The name of one of several alternatives that have nothing but a name. -/
  choice? : N → Option String

/-- The setting of a key among entries; fails if the key comes twice. -/
def uniqueEntry? {N : Type} (key : String) (entries : List (String × N)) : Option (Option N) :=
  match entries.filter (·.1 == key) with
  | [] => some none
  | [e] => some (some e.2)
  | _ => none

end ConstraintScoring
