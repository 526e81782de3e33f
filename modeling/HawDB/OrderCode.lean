import HawDB.Bytes

/-!
# Order-preserving codes

A code of values by byte strings is order preserving when no code word is empty or starts another
and the words compare as the values do. Concatenations of such words then compare as the lists of
the values (`IsOrderCode.compare_flatten`), and one starts another exactly when its list compares
equal to the start of the other list (`IsOrderCode.flatten_prefix_iff`).
-/

namespace HawDB

open List

variable {α : Type*} [Ord α]

structure IsOrderCode (code : α → Bytes → Prop) : Prop where
  ne_nil {a : α} {x : Bytes} : code a x → x ≠ []
  prefixFree {a b : α} {x y : Bytes} : code a x → code b y → x <+: y → x = y
  compare_eq {a b : α} {x y : Bytes} : code a x → code b y → compare x y = compare a b

namespace IsOrderCode

variable {code : α → Bytes → Prop} (h : IsOrderCode code)
include h

lemma compare_eq_of_eq {a b : α} {x : Bytes} (ha : code a x) (hb : code b x) :
    compare a b = .eq := by
  rw [← h.compare_eq ha hb]
  exact Std.ReflCmp.compare_self

lemma compare_append {a b : α} {x y : Bytes} (ha : code a x) (hb : code b y) (s t : Bytes) :
    compare (x ++ s) (y ++ t) = (compare a b).then (compare s t) := by
  by_cases hxy : x = y
  · subst hxy
    rw [compare_append_left, h.compare_eq_of_eq ha hb, Ordering.eq_then]
  have hcmp : compare x y ≠ .eq := fun hc => hxy (Std.LawfulEqOrd.eq_of_compare hc)
  rw [compare_append_of_incomparable s t (fun hp => hxy (h.prefixFree ha hb hp))
    fun hp => hxy (h.prefixFree hb ha hp).symm, h.compare_eq ha hb]
  rw [h.compare_eq ha hb] at hcmp
  revert hcmp
  cases compare a b <;> simp

lemma compare_flatten {l : List α} {xs : List Bytes} (hl : List.Forall₂ code l xs) :
    ∀ {m ys}, List.Forall₂ code m ys → compare xs.flatten ys.flatten = compare l m := by
  induction hl with
  | nil =>
    intro m ys hm
    cases hm with
    | nil => rfl
    | cons hb _ =>
      rw [List.flatten_cons, List.flatten_nil, List.compare_nil_cons]
      exact compare_append_right_lt [] (append_ne_nil_of_left_ne_nil (h.ne_nil hb) _)
  | cons ha hl ih =>
    intro m ys hm
    cases hm with
    | nil =>
      rw [List.flatten_cons, List.flatten_nil, List.compare_cons_nil]
      exact Std.OrientedCmp.gt_iff_lt.2
        (compare_append_right_lt [] (append_ne_nil_of_left_ne_nil (h.ne_nil ha) _))
    | cons hb hm =>
      rw [flatten_cons, flatten_cons, h.compare_append ha hb, ih hm, List.compare_cons_cons]

lemma flatten_prefix_iff {l : List α} {xs : List Bytes} (hl : List.Forall₂ code l xs) :
    ∀ {m ys}, List.Forall₂ code m ys →
      (xs.flatten <+: ys.flatten ↔ compare l (m.take l.length) = .eq) := by
  induction hl with
  | nil => simp
  | @cons a x l xs ha hl ih =>
    intro m ys hm
    cases hm with
    | nil => simp [h.ne_nil ha]
    | @cons b y m ys hb hm =>
      rw [flatten_cons, flatten_cons, length_cons, take_succ_cons,
        List.compare_cons_cons, Ordering.then_eq_eq]
      by_cases hxy : x = y
      · subst hxy
        rw [prefix_append_right_inj, ih hm, h.compare_eq_of_eq ha hb]
        simp
      refine iff_of_false (fun hp => hxy ?_) fun heq => hxy ?_
      · have hy : y <+: y ++ ys.flatten := prefix_append _ _
        rcases prefix_or_prefix_of_prefix ((prefix_append x _).trans hp) hy with hp | hp
        · exact h.prefixFree ha hb hp
        · exact (h.prefixFree hb ha hp).symm
      · rw [← h.compare_eq ha hb] at heq
        exact Std.LawfulEqOrd.eq_of_compare heq.1

end IsOrderCode

end HawDB
