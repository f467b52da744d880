import Quill.Decimal.Binary64

/-!
# Random draws

Random values come from the surroundings of a program, one draw after the other.  What a draw
selects is not known; it is only known to lie in the range that is asked for.
-/

namespace Quill

/-- One random draw, which selects a value from any range of integers or of numbers.  The lower end
belongs to a range and the upper one does not.  Nothing is known of the draw from an empty range.
Among numbers nothing is known of it either if the lower end is not at most itself, which makes it
no number, or if the length of the range is not finite. -/
structure Draw where
  int : Int64 → Int64 → Int64
  float : Float → Float → Float
  int_inRange : ∀ lower upper, lower < upper →
    lower ≤ int lower upper ∧ int lower upper < upper
  float_inRange : ∀ lower upper, lower ≤ lower → lower < upper → (upper - lower).isFinite →
    lower ≤ float lower upper ∧ float lower upper < upper

namespace Draw

/-- The remainder of a random word leads from the lower end of a range of integers to one in it. -/
theorem ofInt_add_emod_inRange (word : UInt64) {lower upper : Int64} (h : lower < upper) :
    let selected := Int64.ofInt (lower.toInt + (word.toNat : Int) % (upper.toInt - lower.toInt))
    lower ≤ selected ∧ selected < upper := by
  intro selected
  rw [Int64.lt_iff_toInt_lt] at h
  have hlower := lower.le_toInt
  have hupper := upper.toInt_lt
  have hnonneg := Int.emod_nonneg (word.toNat : Int) (b := upper.toInt - lower.toInt) (by omega)
  have hless := Int.emod_lt_of_pos (word.toNat : Int) (b := upper.toInt - lower.toInt) (by omega)
  have hselected : selected.toInt =
      lower.toInt + (word.toNat : Int) % (upper.toInt - lower.toInt) :=
    Int64.toInt_ofInt_of_le (by omega) (by omega)
  rw [Int64.le_iff_toInt_le, Int64.lt_iff_toInt_lt, hselected]
  omega

/-- The draw that a random word makes.  It selects an integer by the remainder of the word, and a
number by the share of the range that the upper bits of the word stand for.  Rounding could lead out
of a range of numbers; the lower end then stands in. -/
def ofWord (word : UInt64) : Draw where
  int lower upper := Int64.ofInt (lower.toInt + (word.toNat : Int) % (upper.toInt - lower.toInt))
  float lower upper :=
    let share := Float.ofNat (word.toNat / Decimal.twoTo 11) / Float.ofNat (Decimal.twoTo 53)
    let selected := share * (upper - lower) + lower
    if lower ≤ selected ∧ selected < upper then selected else lower
  int_inRange _ _ h := ofInt_add_emod_inRange word h
  float_inRange _ _ hself h _ := by
    dsimp only
    split
    · assumption
    · exact ⟨hself, h⟩

/-- A random word stands for the draw that it makes. -/
instance : Coe UInt64 Draw := ⟨ofWord⟩

instance : Inhabited Draw := ⟨ofWord 0⟩

end Draw

end Quill
