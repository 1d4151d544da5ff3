/-!
# Whole numbers of 64 bits

Score levels, integer match weights and the integers of formulas all live in the signed 64-bit
range. Arithmetic is done on `Int`; `Whole.ofInt?` is where a result that does not fit shows.
-/

-- Powers of naturals are those of the core library throughout, whatever else is imported.
attribute [instance (2000)] instPowNat

namespace ConstraintScoring

structure Whole where
  val : Int
  min_le : -9223372036854775808 ≤ val
  le_max : val ≤ 9223372036854775807
deriving DecidableEq

namespace Whole

def least : Whole := ⟨-9223372036854775808, by decide, by decide⟩

def greatest : Whole := ⟨9223372036854775807, by decide, by decide⟩

def ofInt? (n : Int) : Option Whole :=
  if h : -9223372036854775808 ≤ n ∧ n ≤ 9223372036854775807 then some ⟨n, h.1, h.2⟩ else none

/-- The nearest whole number in range. -/
def clamp (n : Int) : Whole :=
  if h : n < -9223372036854775808 then least
  else if h' : 9223372036854775807 < n then greatest
  else ⟨n, by omega, by omega⟩

instance : OfNat Whole 0 := ⟨⟨0, by decide, by decide⟩⟩

instance : OfNat Whole 1 := ⟨⟨1, by decide, by decide⟩⟩

instance : Inhabited Whole := ⟨0⟩

instance : Ord Whole := ⟨fun a b => compare a.val b.val⟩

def add? (a b : Whole) : Option Whole := ofInt? (a.val + b.val)

def sub? (a b : Whole) : Option Whole := ofInt? (a.val - b.val)

def neg? (a : Whole) : Option Whole := ofInt? (-a.val)

def mul? (a b : Whole) : Option Whole := ofInt? (a.val * b.val)

def text (a : Whole) : String := toString a.val

@[ext] theorem ext {a b : Whole} (h : a.val = b.val) : a = b := by
  cases a
  cases b
  simp_all

@[simp] theorem val_zero : (0 : Whole).val = 0 := rfl

@[simp] theorem val_one : (1 : Whole).val = 1 := rfl

theorem ofInt?_eq_some_iff {n : Int} {a : Whole} : ofInt? n = some a ↔ a.val = n := by
  unfold ofInt?
  split
  · constructor
    · intro h
      cases h
      rfl
    · intro h
      subst h
      rfl
  · rename_i out
    constructor
    · intro h
      cases h
    · intro h
      subst h
      exact absurd ⟨a.min_le, a.le_max⟩ out

@[simp] theorem ofInt?_val (a : Whole) : ofInt? a.val = some a := ofInt?_eq_some_iff.mpr rfl

theorem val_clamp (n : Int) :
    (clamp n).val = max (-9223372036854775808) (min n 9223372036854775807) := by
  unfold clamp least greatest
  split
  · dsimp only
    omega
  · split <;> dsimp only <;> omega

@[simp] theorem clamp_val (a : Whole) : clamp a.val = a := by
  have low := a.min_le
  have high := a.le_max
  apply ext
  rw [val_clamp]
  omega

end Whole

/-- A range of integers that a running sum must stay in. -/
structure IntRange where
  least : Int
  greatest : Int
deriving DecidableEq

namespace IntRange

def signed (bits : Nat) : IntRange := ⟨-(2 ^ (bits - 1) : Int), 2 ^ (bits - 1) - 1⟩

def unsigned (bits : Nat) : IntRange := ⟨0, 2 ^ bits - 1⟩

/-- A range by the letter `i` or `u` for signed or unsigned, followed by the number of bits. -/
def ofName? (name : List Char) : Option IntRange :=
  match name with
  | 'i' :: bits => (String.ofList bits).toNat?.map signed
  | 'u' :: bits => (String.ofList bits).toNat?.map unsigned
  | _ => none

def Contains (r : IntRange) (n : Int) : Prop := r.least ≤ n ∧ n ≤ r.greatest

instance (r : IntRange) (n : Int) : Decidable (r.Contains n) :=
  inferInstanceAs (Decidable (_ ∧ _))

end IntRange

end ConstraintScoring
