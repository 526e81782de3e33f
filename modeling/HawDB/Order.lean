import Mathlib

/-!
# Comparisons and the linear orders behind them

A lawful comparison is a linear order on the classes of keys that compare equal. Keys that
compare equal need not be the same key: a decimal is equal to itself at another scale. So a proof
about a comparison moves to the classes (`rank`), where the order is linear, and the data stays
as it is.
-/

namespace HawDB

section

variable {α ρ : Type*} [Ord α] [Ord ρ] [Std.TransOrd ρ]

/-- A comparison read off another type's lawful comparison is lawful. -/
theorem transOrd_of_pullback (f : α → ρ) (h : ∀ a b : α, compare a b = compare (f a) (f b)) :
    Std.TransOrd α where
  eq_swap := by
    intro a b
    rw [h a b, h b a]
    exact Std.OrientedCmp.eq_swap
  isLE_trans := by
    intro a b c hab hbc
    rw [h] at hab hbc ⊢
    exact Std.TransCmp.isLE_trans hab hbc

end

lemma compare_eq_compare {α β : Type*} [LinearOrder α] [LinearOrder β] {a b : α} {c d : β}
    (hlt : a < b ↔ c < d) (hgt : b < a ↔ d < c) : compare a b = compare c d := by
  rcases lt_trichotomy a b with h | h | h
  · rw [compare_lt_iff_lt.2 h, compare_lt_iff_lt.2 (hlt.1 h)]
  · rw [compare_eq_iff_eq.2 h, compare_eq_iff_eq.2]
    exact le_antisymm (not_lt.1 fun hdc => (hgt.2 hdc).ne' h) (not_lt.1 fun hcd => (hlt.2 hcd).ne h)
  · rw [compare_gt_iff_gt.2 h, compare_gt_iff_gt.2 (hgt.1 h)]

section

variable (K : Type*) [Ord K] [Std.TransOrd K]

/-- Keys that compare equal. -/
def ordSetoid : Setoid K where
  r a b := compare a b = .eq
  iseqv :=
    { refl := fun _ => Std.ReflCmp.compare_self
      symm := fun h => Std.OrientedCmp.eq_symm h
      trans := fun h h' => Std.TransCmp.eq_trans h h' }

/-- The classes of keys that compare equal. -/
def OrdClass : Type _ := Quotient (ordSetoid K)

variable {K}

def rank (k : K) : OrdClass K := Quotient.mk (ordSetoid K) k

lemma rank_eq_rank {a b : K} : rank a = rank b ↔ compare a b = .eq :=
  ⟨fun h => Quotient.exact (s := ordSetoid K) h, fun h => Quotient.sound (s := ordSetoid K) h⟩

lemma OrdClass.exists_rank (x : OrdClass K) : ∃ k, rank k = x := Quotient.exists_rep x

def OrdClass.le : OrdClass K → OrdClass K → Prop :=
  Quotient.lift₂ (fun a b => (compare a b).isLE = true) fun a b c d hac hbd => by
    have h1 : compare a b = compare c b := Std.TransCmp.congr_left hac
    have h2 : compare c b = compare c d := Std.TransCmp.congr_right hbd
    simp only [h1, h2]

open scoped Classical in
noncomputable instance : LinearOrder (OrdClass K) where
  le := OrdClass.le
  le_refl x := by
    obtain ⟨a, rfl⟩ := x.exists_rank
    exact Std.ReflCmp.isLE_rfl
  le_trans x y z := by
    obtain ⟨a, rfl⟩ := x.exists_rank
    obtain ⟨b, rfl⟩ := y.exists_rank
    obtain ⟨c, rfl⟩ := z.exists_rank
    exact fun h h' => Std.TransCmp.isLE_trans h h'
  le_antisymm x y := by
    obtain ⟨a, rfl⟩ := x.exists_rank
    obtain ⟨b, rfl⟩ := y.exists_rank
    exact fun h h' => rank_eq_rank.2 (Std.OrientedCmp.isLE_antisymm h h')
  le_total x y := by
    obtain ⟨a, rfl⟩ := x.exists_rank
    obtain ⟨b, rfl⟩ := y.exists_rank
    show (compare a b).isLE = true ∨ (compare b a).isLE = true
    have hs : compare b a = (compare a b).swap := Std.OrientedCmp.eq_swap
    rw [hs]
    cases compare a b <;> simp
  toDecidableLE := fun _ _ => Classical.propDecidable _

lemma rank_le_rank {a b : K} : rank a ≤ rank b ↔ (compare a b).isLE = true := Iff.rfl

lemma rank_lt_rank {a b : K} : rank a < rank b ↔ compare a b = .lt := by
  rw [lt_iff_le_and_ne, rank_le_rank, Ne, rank_eq_rank]
  cases compare a b <;> simp

lemma rank_gt_rank {a b : K} : rank b < rank a ↔ compare a b = .gt := by
  rw [rank_lt_rank, Std.OrientedCmp.gt_iff_lt]

lemma rank_ge_rank {a b : K} : rank b ≤ rank a ↔ (compare a b).isGE = true := by
  have hs : compare b a = (compare a b).swap := Std.OrientedCmp.eq_swap
  rw [rank_le_rank, hs]
  cases compare a b <;> simp

end

end HawDB
