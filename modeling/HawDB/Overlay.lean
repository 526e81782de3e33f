import HawDB.OrderedMap

/-!
# Changes over a base

A collection kept as changes over an immutable base: a key is looked up among the changes and then
in the base, unless there is a tombstone for it. Adding, changing and deleting act on what is looked
up as on a plain function.
-/

namespace HawDB

section

variable {K E : Type*} [Ord K] [DecidableEq K]

/-- The element under a key. -/
def overlayGet (tombstones : Finset K) (changes : OrdMap K E) (base : K → Option E) (k : K) :
    Option E :=
  if k ∈ tombstones then none else (changes.get k).or (base k)

variable {tombstones : Finset K} {changes : OrdMap K E} {base : K → Option E} {k : K} {e : E}
  [Std.TransOrd K] [Std.LawfulEqOrd K]

lemma overlayGet_copy (hnone : changes.get k = none) (hbase : base k = some e) :
    overlayGet tombstones (changes.insert k e) base = overlayGet tombstones changes base := by
  funext k'
  unfold overlayGet
  rw [OrdMap.get_insert_eq]
  by_cases h : k' = k
  · subst h
    rw [if_pos rfl, hnone, hbase]
    rfl
  · rw [if_neg h]

lemma overlayGet_insert (tombstones : Finset K) :
    overlayGet (tombstones.erase k) ((changes.remove k).insert k e) base =
      Function.update (overlayGet tombstones changes base) k (some e) := by
  funext k'
  unfold overlayGet
  rw [OrdMap.get_insert_eq, OrdMap.get_remove_eq]
  by_cases h : k' = k
  · subst h
    simp
  · simp [h]

lemma overlayGet_update (f : E → E)
    (h : k ∈ tombstones ∨ (changes.get k).isSome = true ∨ base k = none) :
    overlayGet tombstones (changes.update k f) base =
      Function.update (overlayGet tombstones changes base) k
        ((overlayGet tombstones changes base k).map f) := by
  funext k'
  unfold overlayGet
  rw [OrdMap.get_update_eq]
  by_cases hk : k' = k
  · subst hk
    rw [Function.update_self, if_pos rfl]
    split_ifs with htomb
    · rfl
    rcases (h.resolve_left htomb) with hsome | hnone
    · obtain ⟨e, he⟩ := Option.isSome_iff_exists.1 hsome
      rw [he]
      rfl
    · rw [hnone, Option.or_none, Option.or_none]
  · rw [Function.update_of_ne hk, if_neg hk]

lemma overlayGet_remove (tombstones : Finset K) :
    overlayGet (if (base k).isSome then insert k tombstones else tombstones) (changes.remove k)
        base =
      Function.update (overlayGet tombstones changes base) k none := by
  funext k'
  unfold overlayGet
  rw [OrdMap.get_remove_eq]
  by_cases hk : k' = k
  · subst hk
    rw [Function.update_self, if_pos rfl, Option.none_or]
    rcases hbase : base k' with _ | e
    · rw [ite_self]
    · rw [if_pos]
      exact Finset.mem_insert_self _ _
  · rw [Function.update_of_ne hk, if_neg hk]
    refine if_congr ?_ rfl rfl
    split_ifs
    · rw [Finset.mem_insert, or_iff_right hk]
    · rfl

end

end HawDB
