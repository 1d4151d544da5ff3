/-!
# Tables

A table is a list of entries with one entry a key, in the order in which the keys came. Replacing
the value of a key keeps its place and the key as it was first written. An entry is taken out
either closing the gap in order, or by moving the last entry into its place.
-/

namespace ConstraintScoring

/-- The list without its first element that passes, the last element moved into its place. -/
def removeSwap {α : Type} (p : α → Bool) : List α → List α
  | [] => []
  | a :: as =>
      if p a then
        match as.getLast? with
        | none => []
        | some last => last :: as.dropLast
      else a :: removeSwap p as

structure Table (κ β : Type) where
  entries : List (κ × β)

namespace Table

variable {κ β : Type}

def empty : Table κ β := ⟨[]⟩

instance : EmptyCollection (Table κ β) := ⟨empty⟩

instance : Inhabited (Table κ β) := ⟨empty⟩

def size (t : Table κ β) : Nat := t.entries.length

def keys (t : Table κ β) : List κ := t.entries.map (·.1)

def values (t : Table κ β) : List β := t.entries.map (·.2)

variable [BEq κ]

def get? (t : Table κ β) (k : κ) : Option β := (t.entries.find? (·.1 == k)).map (·.2)

def contains (t : Table κ β) (k : κ) : Bool := t.entries.any (·.1 == k)

def putIn (k : κ) (b : β) : List (κ × β) → List (κ × β)
  | [] => [(k, b)]
  | e :: es => if e.1 == k then (e.1, b) :: es else e :: putIn k b es

def insert (t : Table κ β) (k : κ) (b : β) : Table κ β := ⟨putIn k b t.entries⟩

def erase (t : Table κ β) (k : κ) : Table κ β := ⟨t.entries.eraseP (·.1 == k)⟩

def eraseSwap (t : Table κ β) (k : κ) : Table κ β := ⟨removeSwap (·.1 == k) t.entries⟩

/-- Applies `f` to the value of a key, if there is one. -/
def modify (t : Table κ β) (k : κ) (f : β → β) : Table κ β :=
  match t.get? k with
  | some b => t.insert k (f b)
  | none => t

def getD (t : Table κ β) (k : κ) (b : β) : β := (t.get? k).getD b

@[simp] theorem get?_empty (k : κ) : (empty : Table κ β).get? k = none := rfl

theorem get?_insert_same [EquivBEq κ] (t : Table κ β) (k : κ) (b : β) :
    (t.insert k b).get? k = some b := by
  obtain ⟨es⟩ := t
  simp only [insert, get?]
  induction es with
  | nil => simp [putIn]
  | cons e es ih =>
    by_cases h : e.1 == k
    · simp [putIn, h]
    · simpa [putIn, h] using ih

theorem get?_insert_other [EquivBEq κ] (t : Table κ β) {k l : κ} (b : β) (h : (k == l) = false) :
    (t.insert k b).get? l = t.get? l := by
  obtain ⟨es⟩ := t
  simp only [insert, get?]
  induction es with
  | nil => simp [putIn, h]
  | cons e es ih =>
    by_cases hk : e.1 == k
    · have hl : (e.1 == l) = false := by
        cases hel : e.1 == l with
        | false => rfl
        | true =>
          have := BEq.trans (BEq.symm hk) hel
          simp [h] at this
      simp [putIn, hk, hl]
    · by_cases hl : e.1 == l
      · simp [putIn, hk, hl]
      · simpa [putIn, hk, hl] using ih

end Table

end ConstraintScoring
