import Mathlib

/-!
# Machine arithmetic

Counts of bytes and entries are `usize` values. A saturating addition stops at the largest one, a
checked addition fails past it; a saturating subtraction is the subtraction of `ℕ`. The sizes of
the data types are constants of the target that no result depends on.
-/

namespace HawDB

/-- The largest `usize`, and the largest `u64`. -/
def usizeMax : ℕ := 2 ^ 64 - 1

/-- `saturating_add`. -/
def satAdd (a b : ℕ) : ℕ := min (a + b) usizeMax

/-- `checked_add`. -/
def checkedAdd (a b : ℕ) : Option ℕ := if a + b ≤ usizeMax then some (a + b) else none

/-- `size_of` for the types whose size the estimates use. -/
class TypeSizes where
  heldLock : ℕ
  string : ℕ
  relationalKey : ℕ
  relationalValue : ℕ
  relationalOverflowRef : ℕ
  versionKey : ℕ
  versionStamp : ℕ
  versionWrite : ℕ
  value : ℕ

lemma satAdd_le (a b : ℕ) : satAdd a b ≤ a + b := min_le_left _ _

lemma checkedAdd_eq_some {a b c : ℕ} : checkedAdd a b = some c ↔ a + b = c ∧ c ≤ usizeMax := by
  unfold checkedAdd
  split_ifs with h
  · simp only [Option.some.injEq]
    exact ⟨fun hc => ⟨hc, hc ▸ h⟩, fun hc => hc.1⟩
  · simp only [false_iff, not_and]
    exact fun hc hc' => h (hc ▸ hc')

end HawDB
