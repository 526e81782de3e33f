import Mathlib

/-!
# Three-valued logic of operands that may be missing

A truth value is true, false or unknown (`none`), and an operand may have no truth value at all. A
connective is defined where the operands it has decide the result, so an evaluator that stops early
and one that evaluates every operand agree where both return.
-/

namespace HawDB.Kleene

/-- A truth value, if there is one. -/
abbrev Operand := Option (Option Bool)

def not (p : Operand) : Operand := p.map (·.map (!·))

def or : Operand → Operand → Operand
  | some (some true), _ => some (some true)
  | _, some (some true) => some (some true)
  | some (some false), q => q
  | p, some (some false) => p
  | some none, some none => some none
  | _, _ => none

def and : Operand → Operand → Operand
  | some (some false), _ => some (some false)
  | _, some (some false) => some (some false)
  | some (some true), q => q
  | p, some (some true) => p
  | some none, some none => some none
  | _, _ => none

@[simp]
lemma false_or (p : Operand) : or (some (some false)) p = p := by
  rcases p with _ | _ | _ | _ <;> rfl

@[simp]
lemma true_or (p : Operand) : or (some (some true)) p = some (some true) := by
  rcases p with _ | _ | _ | _ <;> rfl

@[simp]
lemma true_and (p : Operand) : and (some (some true)) p = p := by
  rcases p with _ | _ | _ | _ <;> rfl

lemma not_or (p q : Operand) : not (or p q) = and (not p) (not q) := by
  rcases p with _ | _ | _ | _ <;> rcases q with _ | _ | _ | _ <;> rfl

def any (p : Operand) (qs : List Operand) : Operand := qs.foldl or p

def all (p : Operand) (qs : List Operand) : Operand := qs.foldl and p

lemma any_true : ∀ qs : List Operand, any (some (some true)) qs = some (some true)
  | [] => rfl
  | q :: qs => by
    rw [any, List.foldl_cons, true_or]
    exact any_true qs

lemma not_any (p : Operand) : ∀ qs : List Operand, not (any p qs) = all (not p) (qs.map not) := by
  intro qs
  induction qs generalizing p with
  | nil => rfl
  | cons q qs ih =>
    rw [any, List.foldl_cons, List.map_cons, all, List.foldl_cons, ← not_or]
    exact ih _

/-! ### Refinement

A truth value that is known only to one of two evaluators makes a difference to a connective exactly
where the other operands leave it open. -/

/-- The same truth value, unless it is unknown. -/
def Refines (p q : Option Bool) : Prop := p = none ∨ q = p

/-- The loop of a connective that stops at the operand `s`. -/
def connect (s : Bool) : Option Bool → List (Option Bool) → Option Bool
  | acc, [] => acc
  | acc, p :: ps =>
    if p = some s then some s else if p = none then connect s none ps else connect s acc ps

lemma connect_eq (s : Bool) : ∀ (acc : Option Bool) (ps : List (Option Bool)),
    connect s acc ps = if some s ∈ ps then some s else if none ∈ ps then none else acc
  | acc, [] => by simp [connect]
  | acc, p :: ps => by
    rw [connect, connect_eq s none ps, connect_eq s acc ps]
    by_cases hs : p = some s
    · simp [hs]
    by_cases hnone : p = none
    · simp [hnone]
    · simp [hs, hnone, Ne.symm hs, Ne.symm hnone]

section

variable {s : Bool} {ps : List (Option Bool)}

lemma connect_eq_none : connect s (some !s) ps = none ↔ (∀ p ∈ ps, p ≠ some s) ∧ none ∈ ps := by
  rw [connect_eq]
  split_ifs with hs hnone
  · simp only [false_iff]
    exact fun h => h.1 _ hs rfl
  · exact iff_of_true rfl ⟨fun p hp heq => hs (heq ▸ hp), hnone⟩
  · simp [hnone]

lemma connect_eq_some : connect s (some !s) ps = some b ↔
    if b = s then some s ∈ ps else ∀ p ∈ ps, p = some b := by
  rw [connect_eq]
  by_cases hb : b = s
  · subst hb
    rw [if_pos rfl]
    split_ifs with hs hnone <;> simp [hs]
  obtain rfl : b = !s := by cases b <;> cases s <;> first | rfl | exact absurd rfl hb
  rw [if_neg hb]
  split_ifs with hs hnone
  · simpa using ⟨_, hs, by simp⟩
  · simpa using ⟨_, hnone, by simp⟩
  · refine iff_of_true rfl fun p hp => ?_
    rcases p with _ | p
    · exact absurd hp hnone
    · cases p <;> cases s <;> first | rfl | exact absurd hp hs

variable {operands : List (Option Bool × Option Bool)} (h : ∀ z ∈ operands, Refines z.1 z.2)
include h

lemma refines_connect : Refines (connect s (some !s) (operands.map Prod.fst))
    (connect s (some !s) (operands.map Prod.snd)) := by
  rcases hfst : connect s (some !s) (operands.map Prod.fst) with _ | b
  · exact .inl rfl
  refine .inr (connect_eq_some.2 ?_)
  have hb := connect_eq_some.1 hfst
  have hsame : ∀ z ∈ operands, ∀ c, z.1 = some c → z.2 = some c := by
    intro z hz c hc
    rcases h z hz with hnone | heq
    · cases hnone.symm.trans hc
    · exact heq.trans hc
  split_ifs at hb ⊢
  · obtain ⟨z, hz, heq⟩ := List.mem_map.1 hb
    exact List.mem_map.2 ⟨z, hz, hsame z hz s heq⟩
  · rw [List.forall_mem_map] at hb ⊢
    exact fun z hz => hsame z hz b (hb z hz)

lemma connect_gap (b : Bool) :
    (connect s (some !s) (operands.map Prod.fst) = none ∧
      connect s (some !s) (operands.map Prod.snd) = some b) ↔
    (∃ z ∈ operands, z.1 = none ∧ z.2 = some b) ∧ ∀ z ∈ operands,
      if b = s then z.1 ≠ some s else z.1 = some b ∨ z.1 = none ∧ z.2 = some b := by
  rw [connect_eq_none, connect_eq_some]
  simp only [List.forall_mem_map]
  simp only [List.mem_map]
  split_ifs with hb
  · subst hb
    constructor
    · rintro ⟨⟨hno, -⟩, z, hz, hsome⟩
      refine ⟨⟨z, hz, (h z hz).resolve_right fun heq => ?_, hsome⟩, hno⟩
      exact hno z hz (heq.symm.trans hsome)
    · rintro ⟨⟨z, hz, hnone, hsome⟩, hno⟩
      exact ⟨⟨hno, z, hz, hnone⟩, z, hz, hsome⟩
  · constructor
    · rintro ⟨⟨-, z, hz, hnone⟩, hall⟩
      refine ⟨⟨z, hz, hnone, hall z hz⟩, fun z hz => ?_⟩
      rcases h z hz with hnone | heq
      · exact .inr ⟨hnone, hall z hz⟩
      · exact .inl (heq ▸ hall z hz)
    · rintro ⟨⟨z, hz, hnone, -⟩, hall⟩
      refine ⟨⟨fun z hz hs => ?_, z, hz, hnone⟩, fun z hz => ?_⟩
      · rcases hall z hz with hsome | ⟨hnone, -⟩
        · exact hb (Option.some.inj (hsome.symm.trans hs))
        · cases hnone.symm.trans hs
      · rcases hall z hz with hsome | ⟨-, hsome⟩
        · exact ((h z hz).resolve_left fun hnone => by cases hnone.symm.trans hsome).trans hsome
        · exact hsome

end

end HawDB.Kleene
