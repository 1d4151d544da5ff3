/-!
# Blank characters, trimming and cutting

Texts are read as lists of characters. A character is blank when it has the property `White_Space`.
-/

namespace ConstraintScoring.Text

def blankRanges : List (Nat × Nat) :=
  [(0x9, 0xd), (0x20, 0x20), (0x85, 0x85), (0xa0, 0xa0), (0x1680, 0x1680), (0x2000, 0x200a),
    (0x2028, 0x2029), (0x202f, 0x202f), (0x205f, 0x205f), (0x3000, 0x3000)]

def isBlank (c : Char) : Bool := blankRanges.any fun (low, high) => low ≤ c.toNat && c.toNat ≤ high

def trimLeft (cs : List Char) : List Char := cs.dropWhile isBlank

def trimRight (cs : List Char) : List Char := (trimLeft cs.reverse).reverse

def trim (cs : List Char) : List Char := trimRight (trimLeft cs)

/-- The parts between the occurrences of `mark`; there is always at least one. -/
def splitAtEach (mark : Char) : List Char → List (List Char)
  | [] => [[]]
  | c :: rest =>
      match splitAtEach mark rest with
      | [] => [[c]]
      | part :: parts => if c = mark then [] :: part :: parts else (c :: part) :: parts

/-- What stands before and after the first `mark`. -/
def splitAtFirst? (mark : Char) : List Char → Option (List Char × List Char)
  | [] => none
  | c :: rest =>
      if c = mark then some ([], rest)
      else (splitAtFirst? mark rest).map fun (before, after) => (c :: before, after)

/-- The text without `ending`, when it ends so. -/
def dropEnding? (ending cs : List Char) : Option (List Char) :=
  if ending.isSuffixOf cs then some (cs.take (cs.length - ending.length)) else none

def quoted (cs : List Char) : String := "'" ++ String.ofList cs ++ "'"

end ConstraintScoring.Text
