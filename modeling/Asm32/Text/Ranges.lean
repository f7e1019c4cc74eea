/-!
# Text — sets of characters

A set of characters is a list of inclusive ranges of code points.  The properties of characters
that the assembler reads (blank, cased, passed over between cased letters) are such lists.
-/

namespace Asm32.Text

/-- A set of characters, as inclusive ranges of code points. -/
abbrev Ranges := List (Nat × Nat)

/-- A character is in the set when it lies in one of the ranges. -/
def Ranges.contains (rs : Ranges) (c : Char) : Bool :=
  rs.any fun r => r.1 ≤ c.toNat && c.toNat ≤ r.2

theorem Ranges.contains_iff {rs : Ranges} {c : Char} :
    rs.contains c = true ↔ ∃ r ∈ rs, r.1 ≤ c.toNat ∧ c.toNat ≤ r.2 := by
  simp [Ranges.contains]

end Asm32.Text
