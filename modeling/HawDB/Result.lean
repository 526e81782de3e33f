import Mathlib

/-!
# Results that may be errors

What a computation that succeeded went through: a bind that is `ok` has an `ok` first part, and so
has a map. Proofs take a fallible function apart with these, run it with `ok_bind` and `map_ok`,
and never unfold the monad.
-/

namespace HawDB

universe u

lemma bind_eq_ok {ε : Type*} {α β : Type u} {r : Except ε α} {f : α → Except ε β} {b : β} :
    r >>= f = .ok b ↔ ∃ a, r = .ok a ∧ f a = .ok b := by
  cases r with
  | error e => exact ⟨nofun, fun ⟨_, h, _⟩ => (nomatch h)⟩
  | ok a =>
    exact ⟨fun h => ⟨a, rfl, h⟩, fun ⟨_, h, hf⟩ => by
      cases h
      exact hf⟩

lemma bind₂_eq_ok {ε : Type*} {α β γ : Type u} {r : Except ε α} {f : α → Except ε β}
    {g : α → β → Except ε γ} {c : γ} :
    (r >>= fun a => f a >>= g a) = .ok c ↔ ∃ a, r = .ok a ∧ ∃ b, f a = .ok b ∧ g a b = .ok c := by
  simp only [bind_eq_ok]

lemma ok_bind {ε : Type*} {α β : Type u} (a : α) (f : α → Except ε β) :
    (Except.ok a >>= f) = f a := rfl

variable {ε α β : Type*} {r : Except ε α} {a : α} {b : β}

lemma map_ok (f : α → β) : (Except.ok a : Except ε α).map f = .ok (f a) := rfl

lemma map_eq_ok {f : α → β} : r.map f = .ok b ↔ ∃ a, r = .ok a ∧ f a = b := by
  cases r with
  | error e => exact ⟨nofun, fun ⟨_, h, _⟩ => (nomatch h)⟩
  | ok a =>
    exact ⟨fun h => ⟨a, rfl, Except.ok.inj h⟩, fun ⟨_, h, hf⟩ => by
      cases h
      exact congrArg Except.ok hf⟩

lemma toOption_eq_some_iff : r.toOption = some a ↔ r = .ok a := by
  cases r <;> simp [Except.toOption]

lemma exists_mapM {α β : Type*} {f : α → Except ε β} {R : α → β → Prop} : ∀ {l},
    (∀ a ∈ l, ∃ b, f a = .ok b ∧ R a b) → ∃ m, l.mapM f = .ok m ∧ List.Forall₂ R l m
  | [], _ => ⟨[], rfl, .nil⟩
  | a :: l, h => by
    obtain ⟨b, hb, hab⟩ := h a List.mem_cons_self
    obtain ⟨m, hm, hlm⟩ := exists_mapM fun a' ha' => h a' (List.mem_cons_of_mem _ ha')
    refine ⟨b :: m, ?_, .cons hab hlm⟩
    rw [List.mapM_cons, hb]
    show l.mapM f >>= _ = _
    rw [hm]
    rfl

lemma mapM_eq_ok {α β : Type*} {f : α → Except ε β} : ∀ {l m},
    l.mapM f = .ok m → List.Forall₂ (fun a b => f a = .ok b) l m
  | [], m, h => by
    cases h
    exact .nil
  | a :: l, m, h => by
    rw [List.mapM_cons] at h
    obtain ⟨b, hb, h⟩ := bind_eq_ok.1 h
    obtain ⟨rest, hrest, h⟩ := bind_eq_ok.1 h
    cases h
    exact .cons hb (mapM_eq_ok hrest)

lemma exists_of_mem_forall₂ {α β : Type*} {R : α → β → Prop} : ∀ {l m}, List.Forall₂ R l m →
    ∀ {a}, a ∈ l → ∃ b ∈ m, R a b
  | _ :: _, _ :: _, .cons hab h, c, hc => by
    rcases List.mem_cons.1 hc with rfl | hc
    · exact ⟨_, List.mem_cons_self, hab⟩
    · obtain ⟨d, hd, hcd⟩ := exists_of_mem_forall₂ h hc
      exact ⟨d, List.mem_cons_of_mem _ hd, hcd⟩

end HawDB
