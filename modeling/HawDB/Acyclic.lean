import Mathlib

/-!
# Acyclic relations

What keeps a relation acyclic when one vertex changes: edges may go away (`Acyclic.mono`), edges
into a vertex without edges out of it may appear (`Acyclic.of_sink`), and edges out of one vertex
may appear as long as no walk from it comes back (`Acyclic.of_source`).
-/

namespace HawDB

variable {α : Type*} {r r' : α → α → Prop} {v : α}

def Acyclic (r : α → α → Prop) : Prop := ∀ a, ¬ Relation.TransGen r a a

lemma transGen_of_sink (hle : ∀ a b, r' a b → r a b ∨ b = v) (hv : ∀ b, ¬ r' v b) {a b : α}
    (h : Relation.TransGen r' a b) (hb : ∃ c, r' b c) : Relation.TransGen r a b := by
  induction h with
  | single hab =>
    obtain ⟨c, hc⟩ := hb
    rcases hle _ _ hab with hr | rfl
    · exact .single hr
    · exact absurd hc (hv c)
  | tail _ hcb ih =>
    obtain ⟨c, hc⟩ := hb
    rcases hle _ _ hcb with hr | rfl
    · exact (ih ⟨_, hcb⟩).tail hr
    · exact absurd hc (hv c)

lemma Acyclic.of_sink (h : Acyclic r) (hle : ∀ a b, r' a b → r a b ∨ b = v)
    (hv : ∀ b, ¬ r' v b) : Acyclic r' := by
  intro a ha
  obtain ⟨c, hac, -⟩ := Relation.TransGen.head'_iff.1 ha
  exact h a (transGen_of_sink hle hv ha ⟨c, hac⟩)

lemma transGen_of_source (hle : ∀ a b, a ≠ v → r' a b → r a b) {a b : α}
    (h : Relation.TransGen r' a b) :
    Relation.TransGen r a b ∨ Relation.ReflTransGen r' a v ∧ Relation.TransGen r' v b := by
  induction h with
  | single hab =>
    by_cases hav : a = v
    · subst hav
      exact .inr ⟨.refl, .single hab⟩
    · exact .inl (.single (hle _ _ hav hab))
  | @tail c b hac hcb ih =>
    rcases ih with hr | ⟨hav, hvc⟩
    · by_cases hcv : c = v
      · subst hcv
        exact .inr ⟨hac.to_reflTransGen, .single hcb⟩
      · exact .inl (hr.tail (hle _ _ hcv hcb))
    · exact .inr ⟨hav, hvc.tail hcb⟩

lemma Acyclic.of_source (h : Acyclic r) (hle : ∀ a b, a ≠ v → r' a b → r a b)
    (hv : ¬ Relation.TransGen r' v v) : Acyclic r' := by
  intro a ha
  rcases transGen_of_source hle ha with hr | ⟨hav, hva⟩
  · exact h a hr
  · exact hv (hva.trans_left hav)

/-- A set that holds a vertex's successors, and whose edges never lead back to the vertex, keeps
every walk from it from returning. -/
theorem not_transGen_of_closed {s : α → Prop} (hs : s v) (hclosed : ∀ a b, s a → r a b →
    (∃ c, r b c) → s b) (hback : ∀ a, s a → ¬ r a v) : ¬ Relation.TransGen r v v := by
  intro h
  have hreach : ∀ {b}, Relation.ReflTransGen r v b → (∃ c, r b c) → s b := by
    intro b hb
    induction hb with
    | refl => exact fun _ => hs
    | tail _ hcb ih => exact fun hc => hclosed _ _ (ih ⟨_, hcb⟩) hcb hc
  obtain ⟨b, hvb, hbv⟩ := Relation.TransGen.tail'_iff.1 h
  exact hback b (hreach hvb ⟨_, hbv⟩) hbv

/-- Of finitely many vertices, one has no edge to another of them. -/
lemma Acyclic.exists_sink (h : Acyclic r) {l : List α} (hl : l ≠ []) :
    ∃ a ∈ l, ∀ b ∈ l, ¬ r a b := by
  have : IsStrictOrder α (Function.swap (Relation.TransGen r)) :=
    { irrefl := h, trans := fun _ _ _ hba hcb => hcb.trans hba }
  have hwf := l.finite_toSet.wellFoundedOn (r := Function.swap (Relation.TransGen r))
  obtain ⟨a, ha⟩ := List.exists_mem_of_ne_nil l hl
  obtain ⟨b, -, hmin⟩ := hwf.has_min Set.univ ⟨⟨a, ha⟩, trivial⟩
  exact ⟨b, b.2, fun c hc hbc => hmin ⟨c, hc⟩ trivial (.single hbc)⟩

end HawDB
