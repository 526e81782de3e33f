import HawDB.Order

/-!
# Ordered maps

A map from ordered keys is its entries in strictly ascending key order. Keys are compared, not
tested for equality: inserting over an entry keeps the key that is there and replaces its value.
The lemmas say how each operation acts on a concatenation, so that a map kept in consecutive
pieces can work on one of them.
-/

namespace HawDB

open List Std

section

variable {K V : Type*}

/-- Visits the entries in order with a state; each may be changed, and is kept or dropped. -/
def retainEntries {σ : Type*} (keep : σ → K → V → σ × V × Bool) :
    σ → List (K × V) → σ × List (K × V)
  | s, [] => (s, [])
  | s, (k, v) :: l =>
    let (s, v, kept) := keep s k v
    let (s, l) := retainEntries keep s l
    (s, if kept then (k, v) :: l else l)

lemma retainEntries_keys {σ : Type*} (keep : σ → K → V → σ × V × Bool) :
    ∀ (s : σ) (l : List (K × V)), ((retainEntries keep s l).2.map Prod.fst).Sublist (l.map Prod.fst)
  | _, [] => Sublist.refl _
  | s, (k, v) :: l => by
    have ih := retainEntries_keys keep (keep s k v).1 l
    simp only [retainEntries]
    split_ifs
    · exact ih.cons_cons k
    · exact ih.cons k

lemma retainEntries_append {σ : Type*} (keep : σ → K → V → σ × V × Bool) :
    ∀ (s : σ) (l₁ l₂ : List (K × V)),
      retainEntries keep s (l₁ ++ l₂) =
        ((retainEntries keep (retainEntries keep s l₁).1 l₂).1,
          (retainEntries keep s l₁).2 ++ (retainEntries keep (retainEntries keep s l₁).1 l₂).2)
  | _, [], _ => rfl
  | s, (k, v) :: l₁, l₂ => by
    simp only [cons_append, retainEntries, retainEntries_append keep (keep s k v).1 l₁ l₂]
    split_ifs <;> rfl

variable [Ord K]

/-- Strictly ascending keys. -/
def SortedKeys (l : List (K × V)) : Prop := l.Pairwise fun a b => compare a.1 b.1 = .lt

/-- The entry whose key compares equal. -/
def findEntry (k : K) (l : List (K × V)) : Option (K × V) :=
  l.find? fun e => compare e.1 k = .eq

/-- Adds an entry, or replaces the value of the one that is there. -/
def insertEntry (k : K) (v : V) : List (K × V) → List (K × V)
  | [] => [(k, v)]
  | e :: l =>
    match compare k e.1 with
    | .lt => (k, v) :: e :: l
    | .eq => (e.1, v) :: l
    | .gt => e :: insertEntry k v l

def removeEntry (k : K) (l : List (K × V)) : List (K × V) :=
  l.filter fun e => compare e.1 k ≠ .eq

/-- Changes the value under a key. -/
def updateEntry (k : K) (f : V → V) (l : List (K × V)) : List (K × V) :=
  l.map fun e => if compare e.1 k = .eq then (e.1, f e.2) else e

variable {k : K} {v : V} {l l₁ l₂ l₃ : List (K × V)}

lemma sortedKeys_append : SortedKeys (l₁ ++ l₂) ↔
    SortedKeys l₁ ∧ SortedKeys l₂ ∧ ∀ a ∈ l₁, ∀ b ∈ l₂, compare a.1 b.1 = .lt :=
  pairwise_append

lemma sortedKeys_iff_keys : SortedKeys l ↔
    (l.map Prod.fst).Pairwise fun a b => compare a b = .lt := by
  rw [pairwise_map]
  rfl

lemma updateEntry_keys (f : V → V) : (updateEntry k f l).map Prod.fst = l.map Prod.fst := by
  simp only [updateEntry, map_map]
  refine map_congr_left fun e _ => ?_
  simp only [Function.comp_apply]
  split_ifs <;> rfl

lemma findEntry_eq_none (h : ∀ e ∈ l, compare e.1 k ≠ .eq) : findEntry k l = none := by
  simpa [findEntry] using h

lemma updateEntry_eq_self {f : V → V} (h : ∀ e ∈ l, compare e.1 k ≠ .eq) :
    updateEntry k f l = l := by
  unfold updateEntry
  rw [map_congr_left fun e he => if_neg (h e he), map_id']

lemma updateEntry_of_get_none {f : V → V} (h : (findEntry k l).map Prod.snd = none) :
    updateEntry k f l = l :=
  updateEntry_eq_self (by simpa [findEntry] using h)

lemma removeEntry_of_get_none (h : (findEntry k l).map Prod.snd = none) : removeEntry k l = l :=
  filter_eq_self.2 (by simpa [findEntry] using h)

lemma findEntry_some {e : K × V} (h : findEntry k l = some e) : e ∈ l ∧ compare e.1 k = .eq :=
  ⟨mem_of_find?_eq_some h, by simpa using find?_some h⟩

lemma findEntry_isSome_iff : (findEntry k l).isSome ↔ ∃ e ∈ l, compare e.1 k = .eq := by
  simp [findEntry]

lemma mem_insertEntry {e : K × V} : ∀ {l}, e ∈ insertEntry k v l →
    e = (k, v) ∨ e ∈ l ∨ e.2 = v ∧ compare k e.1 = .eq
  | [], h => .inl (by simpa [insertEntry] using h)
  | a :: l, h => by
    unfold insertEntry at h
    split at h
    · rcases mem_cons.1 h with h | h
      · exact .inl h
      · exact .inr (.inl h)
    · rename_i heq
      rcases mem_cons.1 h with rfl | h
      · exact .inr (.inr ⟨rfl, heq⟩)
      · exact .inr (.inl (mem_cons_of_mem _ h))
    · rcases mem_cons.1 h with rfl | h
      · exact .inr (.inl mem_cons_self)
      · rcases mem_insertEntry h with h | h | h
        · exact .inl h
        · exact .inr (.inl (mem_cons_of_mem _ h))
        · exact .inr (.inr h)

lemma forall_key_insertEntry [LawfulEqOrd K] {P : K → Prop} : ∀ {l},
    (∀ e ∈ insertEntry k v l, P e.1) ↔ P k ∧ ∀ e ∈ l, P e.1
  | [] => by simp [insertEntry]
  | a :: l => by
    unfold insertEntry
    split
    · simp
    · rename_i heq
      rw [LawfulEqOrd.compare_eq_iff_eq.1 heq]
      simp
    · rw [forall_mem_cons, forall_key_insertEntry, forall_mem_cons]
      exact and_left_comm

lemma insertEntry_append_right (h : ∀ e ∈ l₂, compare k e.1 = .lt) : ∀ {l₁},
    insertEntry k v (l₁ ++ l₂) = insertEntry k v l₁ ++ l₂
  | [] => by
    rcases l₂ with _ | ⟨e, l₂⟩
    · rfl
    · rw [nil_append]
      simp [insertEntry, h e mem_cons_self]
  | e :: l₁ => by
    rw [cons_append, insertEntry, insertEntry]
    split
    · rfl
    · rfl
    · rw [insertEntry_append_right h, cons_append]

variable [TransOrd K]

lemma compare_gt_iff {a b : K} : compare a b = .gt ↔ compare b a = .lt :=
  OrientedCmp.gt_iff_lt

lemma compare_swap_eq {a b : K} : compare a b = .eq ↔ compare b a = .eq :=
  ⟨OrientedCmp.eq_symm, OrientedCmp.eq_symm⟩

lemma compare_ne_eq_of_lt {a b : K} (h : compare a b = .lt) : compare b a ≠ .eq := by
  rw [compare_gt_iff.2 h]
  decide

lemma lt_of_mem_insertEntry (hk : compare a k = .lt)
    (hl : ∀ e ∈ l, compare a e.1 = .lt) : ∀ e ∈ insertEntry k v l, compare a e.1 = .lt := by
  intro e he
  rcases mem_insertEntry he with rfl | he | ⟨-, he⟩
  · exact hk
  · exact hl e he
  · exact TransCmp.lt_of_lt_of_eq hk he

lemma sortedKeys_insertEntry : ∀ {l}, SortedKeys l → SortedKeys (insertEntry k v l)
  | [], _ => pairwise_singleton _ _
  | e :: l, h => by
    have ⟨hlt, hl⟩ := pairwise_cons.1 h
    unfold insertEntry
    split
    · rename_i hk
      refine pairwise_cons.2 ⟨fun a ha => ?_, h⟩
      rcases mem_cons.1 ha with rfl | ha
      · exact hk
      · exact TransCmp.lt_trans hk (hlt a ha)
    · exact pairwise_cons.2 ⟨hlt, hl⟩
    · rename_i hk
      exact pairwise_cons.2
        ⟨lt_of_mem_insertEntry (compare_gt_iff.1 hk) hlt, sortedKeys_insertEntry hl⟩

lemma insertEntry_append_left : ∀ {l₁}, (∀ e ∈ l₁, compare e.1 k = .lt) →
    insertEntry k v (l₁ ++ l₂) = l₁ ++ insertEntry k v l₂
  | [], _ => rfl
  | e :: l₁, h => by
    have he : compare k e.1 = .gt := compare_gt_iff.2 (h e mem_cons_self)
    rw [cons_append, insertEntry, he]
    simp only [cons_append, insertEntry_append_left fun a ha => h a (mem_cons_of_mem _ ha)]

lemma filter_insertEntry {p : K → Bool} (hp : ∀ a b, compare a b = .eq → p a = p b) :
    ∀ {l}, SortedKeys l → (insertEntry k v l).filter (fun e => p e.1) =
      if p k then insertEntry k v (l.filter fun e => p e.1) else l.filter fun e => p e.1
  | [], _ => by
    simp only [insertEntry, filter_cons, filter_nil]
  | e :: l, h => by
    have ⟨hlt, hl⟩ := pairwise_cons.1 h
    rcases hk : compare k e.1 with _ | _ | _
    · have hall : ∀ a ∈ (e :: l).filter fun e => p e.1, compare k a.1 = .lt := by
        intro a ha
        rcases mem_cons.1 (mem_of_mem_filter ha) with rfl | ha
        · exact hk
        · exact TransCmp.lt_trans hk (hlt a ha)
      have hfront : insertEntry k v ((e :: l).filter fun e => p e.1) =
          (k, v) :: (e :: l).filter fun e => p e.1 := by
        rw [← nil_append (filter _ _), insertEntry_append_right hall]
        rfl
      have hstep : insertEntry k v (e :: l) = (k, v) :: e :: l := by simp only [insertEntry, hk]
      rw [hfront, hstep, filter_cons]
    · have hstep : insertEntry k v (e :: l) = (e.1, v) :: l := by simp only [insertEntry, hk]
      rw [hstep, filter_cons, filter_cons, hp _ _ hk]
      split_ifs
      · simp only [insertEntry, hk]
      · rfl
    · have hstep : insertEntry k v (e :: l) = e :: insertEntry k v l := by
        simp only [insertEntry, hk]
      rw [hstep, filter_cons, filter_cons, filter_insertEntry hp hl]
      split_ifs with he hpk
      · simp only [insertEntry, hk]
      all_goals rfl

lemma filter_foldl_insertEntry {p : K → Bool} (hp : ∀ a b, compare a b = .eq → p a = p b) :
    ∀ {es l : List (K × V)}, SortedKeys l →
      (es.foldl (fun entries e => insertEntry e.1 e.2 entries) l).filter (fun e => p e.1) =
        (es.filter fun e => p e.1).foldl (fun entries e => insertEntry e.1 e.2 entries)
          (l.filter fun e => p e.1)
  | [], _, _ => rfl
  | e :: es, l, h => by
    rw [foldl_cons, filter_foldl_insertEntry hp (sortedKeys_insertEntry h),
      filter_insertEntry hp h, filter_cons]
    split_ifs <;> rfl

section

variable (h₁ : ∀ e ∈ l₁, compare e.1 k = .lt) (h₃ : ∀ e ∈ l₃, compare k e.1 = .lt)

include h₁ h₃

/-- The key is looked for in the one piece that can hold it. -/
theorem findEntry_append : findEntry k (l₁ ++ (l₂ ++ l₃)) = findEntry k l₂ := by
  have hnone₁ : findEntry k l₁ = none := findEntry_eq_none fun e he => by simp [h₁ e he]
  have hnone₃ : findEntry k l₃ = none :=
    findEntry_eq_none fun e he => by simp [compare_gt_iff.2 (h₃ e he)]
  unfold findEntry at *
  rw [find?_append, hnone₁, find?_append, hnone₃]
  simp

lemma removeEntry_append : removeEntry k (l₁ ++ (l₂ ++ l₃)) = l₁ ++ (removeEntry k l₂ ++ l₃) := by
  unfold removeEntry
  rw [filter_append, filter_append]
  congr 1
  · exact filter_eq_self.2 fun e he => by simp [h₁ e he]
  · congr 1
    exact filter_eq_self.2 fun e he => by simp [compare_gt_iff.2 (h₃ e he)]

lemma updateEntry_append {f : V → V} :
    updateEntry k f (l₁ ++ (l₂ ++ l₃)) = l₁ ++ (updateEntry k f l₂ ++ l₃) := by
  have hself₁ : updateEntry k f l₁ = l₁ := updateEntry_eq_self fun e he => by simp [h₁ e he]
  have hself₃ : updateEntry k f l₃ = l₃ :=
    updateEntry_eq_self fun e he => by simp [compare_gt_iff.2 (h₃ e he)]
  unfold updateEntry at *
  rw [map_append, map_append, hself₁, hself₃]

end

lemma sum_insertEntry (w : K × V → ℕ) : ∀ {l}, SortedKeys l →
    ((insertEntry k v l).map w).sum + ((findEntry k l).map w).getD 0 =
      (l.map w).sum + ((findEntry k l).map fun e => w (e.1, v)).getD (w (k, v))
  | [], _ => by simp [insertEntry, findEntry]
  | e :: l, h => by
    have ⟨hlt, hl⟩ := pairwise_cons.1 h
    rcases hk : compare k e.1
    · have hnone : findEntry k (e :: l) = none := by
        refine findEntry_eq_none fun a ha => ?_
        rcases mem_cons.1 ha with rfl | ha
        · simp [compare_gt_iff.2 hk]
        · simp [compare_gt_iff.2 (TransCmp.lt_trans hk (hlt a ha))]
      simp [insertEntry, hk, hnone, Nat.add_comm]
    · have hsome : findEntry k (e :: l) = some e := by
        simp [findEntry, compare_swap_eq.1 hk]
      simp only [insertEntry, hk, hsome, map_cons, sum_cons, Option.map_some, Option.getD_some]
      omega
    · have hrest : findEntry k (e :: l) = findEntry k l := by
        simp [findEntry, compare_gt_iff.1 hk]
      have ih := sum_insertEntry w hl
      simp only [insertEntry, hk, hrest, map_cons, sum_cons]
      omega

lemma length_insertEntry (h : SortedKeys l) :
    (insertEntry k v l).length = l.length + if (findEntry k l).isSome then 0 else 1 := by
  have hsum := sum_insertEntry (k := k) (v := v) (fun _ => 1) h
  rcases hf : findEntry k l <;> rw [hf] at hsum <;> simpa using hsum

/-- The entry under a key, with the keys below it and those above. -/
theorem exists_append_of_mem {e : K × V} (h : SortedKeys l) (he : e ∈ l)
    (hk : compare e.1 k = .eq) : ∃ l₁ l₂, l = l₁ ++ ([e] ++ l₂) ∧
      (∀ a ∈ l₁, compare a.1 k = .lt) ∧ ∀ a ∈ l₂, compare k a.1 = .lt := by
  obtain ⟨l₁, l₂, rfl⟩ := append_of_mem he
  obtain ⟨-, hl, hlt⟩ := sortedKeys_append.1 h
  refine ⟨l₁, l₂, rfl, fun a ha => TransCmp.lt_of_lt_of_eq (hlt a ha e mem_cons_self) hk, ?_⟩
  intro a ha
  exact TransCmp.lt_of_eq_of_lt (compare_swap_eq.1 hk) ((pairwise_cons.1 hl).1 a ha)

lemma findEntry_eq_some_iff {e : K × V} (h : SortedKeys l) :
    findEntry k l = some e ↔ e ∈ l ∧ compare e.1 k = .eq := by
  refine ⟨findEntry_some, fun ⟨he, hk⟩ => ?_⟩
  obtain ⟨l₁, l₂, rfl, h₁, h₂⟩ := exists_append_of_mem h he hk
  rw [findEntry_append h₁ h₂]
  simp [findEntry, hk]

lemma sum_removeEntry (w : K × V → ℕ) (h : SortedKeys l) :
    ((removeEntry k l).map w).sum + ((findEntry k l).map w).getD 0 = (l.map w).sum := by
  cases hf : findEntry k l with
  | none => rw [removeEntry_of_get_none (by rw [hf]; rfl)]; rfl
  | some e =>
    obtain ⟨he, hk⟩ := findEntry_some hf
    obtain ⟨l₁, l₂, rfl, h₁, h₂⟩ := exists_append_of_mem h he hk
    have hself : removeEntry k [e] = [] := by simp [removeEntry, hk]
    rw [removeEntry_append h₁ h₂, hself]
    simp only [map_append, sum_append, map_cons, sum_cons, map_nil, sum_nil, Option.map_some,
      Option.getD_some]
    omega

lemma sum_updateEntry (w : K × V → ℕ) (f : V → V) (h : SortedKeys l) :
    ((updateEntry k f l).map w).sum + ((findEntry k l).map w).getD 0 =
      (l.map w).sum + ((findEntry k l).map fun e => w (e.1, f e.2)).getD 0 := by
  cases hf : findEntry k l with
  | none => rw [updateEntry_of_get_none (by rw [hf]; rfl)]; rfl
  | some e =>
    obtain ⟨he, hk⟩ := findEntry_some hf
    obtain ⟨l₁, l₂, rfl, h₁, h₂⟩ := exists_append_of_mem h he hk
    have hself : updateEntry k f [e] = [(e.1, f e.2)] := by simp [updateEntry, hk]
    rw [updateEntry_append h₁ h₂, hself]
    simp only [map_append, sum_append, map_cons, sum_cons, map_nil, sum_nil, Option.map_some,
      Option.getD_some]
    omega

lemma SortedKeys.head_isLE (h : SortedKeys l) (hne : l ≠ []) (he : e ∈ l) :
    (compare (l.head hne).1 e.1).isLE := by
  rw [← cons_head_tail hne] at h he
  rcases mem_cons.1 he with rfl | he
  · rw [ReflOrd.compare_self]
    rfl
  · rw [(pairwise_cons.1 h).1 e he]
    rfl

lemma SortedKeys.isLE_getLast (h : SortedKeys l) (hne : l ≠ []) (he : e ∈ l) :
    (compare e.1 (l.getLast hne).1).isLE := by
  rw [← dropLast_append_getLast hne] at h he
  rcases mem_append.1 he with he | he
  · rw [(pairwise_append.1 h).2.2 e he _ mem_cons_self]
    rfl
  · rw [mem_singleton.1 he, ReflOrd.compare_self]
    rfl

lemma findEntry_congr (h : compare k k' = .eq) (l : List (K × V)) :
    findEntry k l = findEntry k' l := by
  unfold findEntry
  congr 1
  funext e
  rw [TransCmp.congr_right h]

lemma findEntry_insertEntry (k' : K) : ∀ {l}, SortedKeys l →
    (findEntry k' (insertEntry k v l)).map Prod.snd =
      if compare k' k = .eq then some v else (findEntry k' l).map Prod.snd
  | [], _ => by
    by_cases hk : compare k' k = .eq
    · simp [insertEntry, findEntry, hk, compare_swap_eq.1 hk]
    · have hk' : ¬ compare k k' = .eq := fun h => hk (compare_swap_eq.1 h)
      simp [insertEntry, findEntry, hk, hk']
  | e :: l, h => by
    have ⟨hlt, hl⟩ := pairwise_cons.1 h
    have ih := findEntry_insertEntry k' hl
    by_cases hk : compare k' k = .eq
    · have hk' := compare_swap_eq.1 hk
      rw [if_pos hk] at ih ⊢
      unfold insertEntry
      split
      · simp [findEntry, hk']
      · rename_i heq
        simp [findEntry, TransCmp.eq_trans (compare_swap_eq.1 heq) hk']
      · rename_i hgt
        simpa [findEntry, TransCmp.lt_of_lt_of_eq (compare_gt_iff.1 hgt) hk'] using ih
    · have hk' : ¬ compare k k' = .eq := fun h => hk (compare_swap_eq.1 h)
      rw [if_neg hk] at ih ⊢
      unfold insertEntry
      split
      · simp [findEntry, hk']
      · rename_i heq
        have hek : ¬ compare e.1 k' = .eq := fun h => hk' (TransCmp.eq_trans heq h)
        simp [findEntry, hek]
      · by_cases hek : compare e.1 k' = .eq
        · simp [findEntry, hek]
        · simpa [findEntry, hek] using ih

end

/-- An ordered map. -/
structure OrdMap (K V : Type*) [Ord K] where
  entries : List (K × V)
  sorted : SortedKeys entries

namespace OrdMap

variable {K V : Type*} [Ord K]

@[ext] lemma ext {m m' : OrdMap K V} (h : m.entries = m'.entries) : m = m' := by
  cases m
  cases m'
  simpa using h

def empty : OrdMap K V := ⟨[], Pairwise.nil⟩

def get (m : OrdMap K V) (k : K) : Option V := (findEntry k m.entries).map Prod.snd

def remove (m : OrdMap K V) (k : K) : OrdMap K V := ⟨removeEntry k m.entries, m.sorted.filter _⟩

def update (m : OrdMap K V) (k : K) (f : V → V) : OrdMap K V :=
  ⟨updateEntry k f m.entries, by
    rw [sortedKeys_iff_keys, updateEntry_keys, ← sortedKeys_iff_keys]
    exact m.sorted⟩

/-- Visits the entries in order with a state. -/
def retain {σ : Type*} (m : OrdMap K V) (keep : σ → K → V → σ × V × Bool) (s : σ) :
    σ × OrdMap K V :=
  ((retainEntries keep s m.entries).1, ⟨(retainEntries keep s m.entries).2, by
    rw [sortedKeys_iff_keys]
    exact (sortedKeys_iff_keys.1 m.sorted).sublist (retainEntries_keys keep s m.entries)⟩)

def filter (m : OrdMap K V) (p : K × V → Bool) : OrdMap K V :=
  ⟨m.entries.filter p, m.sorted.filter p⟩

/-- The entries with larger keys; all of them without a key. -/
def iterAfter (m : OrdMap K V) (after : Option K) : List (K × V) :=
  m.entries.filter fun e => after.all fun k => (compare k e.1).isLT

/-- The entries between two keys, both included. There is none to give when they are in the wrong
order. -/
def range (m : OrdMap K V) (first last : K) : Option (List (K × V)) :=
  if (compare first last).isLE then
    some (m.entries.filter fun e => (compare first e.1).isLE && (compare e.1 last).isLE)
  else none

variable [TransOrd K]

def insert (m : OrdMap K V) (k : K) (v : V) : OrdMap K V :=
  ⟨insertEntry k v m.entries, sortedKeys_insertEntry m.sorted⟩

/-- The map with the entries of a list, later ones over earlier ones. -/
def ofList (l : List (K × V)) : OrdMap K V := l.foldl (fun m e => m.insert e.1 e.2) empty

lemma get_insert (m : OrdMap K V) (k : K) (v : V) (k' : K) :
    (m.insert k v).get k' = if compare k' k = .eq then some v else m.get k' :=
  findEntry_insertEntry k' m.sorted

lemma get_congr (m : OrdMap K V) (h : compare k k' = .eq) : m.get k = m.get k' := by
  unfold get
  rw [findEntry_congr h]

lemma get_remove (m : OrdMap K V) (k k' : K) :
    (m.remove k).get k' = if compare k' k = .eq then none else m.get k' := by
  unfold get remove
  dsimp only
  split_ifs with h
  · rw [findEntry_eq_none, Option.map_none]
    intro e he heq
    have hne := (mem_filter.1 he).2
    simp only [ne_eq, decide_not, Bool.not_eq_true', decide_eq_false_iff_not] at hne
    exact hne (TransCmp.eq_trans heq h)
  · have hkeep : ∀ e : K × V, decide (decide (compare e.1 k ≠ .eq) = true ∧
        decide (compare e.1 k' = .eq) = true) = decide (compare e.1 k' = .eq) := by
      intro e
      by_cases heq : compare e.1 k' = .eq
      · have hne : compare e.1 k ≠ .eq := fun hk =>
          h (TransCmp.eq_trans (compare_swap_eq.1 heq) hk)
        simp [heq, hne]
      · simp [heq]
    rw [findEntry, removeEntry, find?_filter, funext hkeep]
    rfl

lemma get_update (m : OrdMap K V) (k : K) (f : V → V) (k' : K) :
    (m.update k f).get k' = if compare k' k = .eq then (m.get k').map f else m.get k' := by
  unfold get update
  dsimp only
  rw [findEntry, updateEntry, find?_map]
  have hkey : ((fun e : K × V => decide (compare e.1 k' = .eq)) ∘ fun e : K × V =>
      if compare e.1 k = .eq then (e.1, f e.2) else e) =
      fun e : K × V => decide (compare e.1 k' = .eq) := by
    funext e
    simp only [Function.comp_apply]
    split_ifs <;> rfl
  rw [hkey]
  change (findEntry k' m.entries |>.map _).map _ = _
  rcases he : findEntry k' m.entries with _ | e
  · simp
  have heq := (findEntry_some he).2
  have hiff : compare e.1 k = .eq ↔ compare k' k = .eq :=
    ⟨TransCmp.eq_trans (compare_swap_eq.1 heq), TransCmp.eq_trans heq⟩
  simp only [Option.map_some, hiff]
  split_ifs <;> rfl

section

variable [LawfulEqOrd K] [DecidableEq K]

lemma get_insert_eq (m : OrdMap K V) (k : K) (v : V) (k' : K) :
    (m.insert k v).get k' = if k' = k then some v else m.get k' := by
  simp only [get_insert, LawfulEqOrd.compare_eq_iff_eq]

lemma get_remove_eq (m : OrdMap K V) (k k' : K) :
    (m.remove k).get k' = if k' = k then none else m.get k' := by
  simp only [get_remove, LawfulEqOrd.compare_eq_iff_eq]

lemma get_update_eq (m : OrdMap K V) (k : K) (f : V → V) (k' : K) :
    (m.update k f).get k' = if k' = k then (m.get k').map f else m.get k' := by
  simp only [get_update, LawfulEqOrd.compare_eq_iff_eq]

end

lemma get_eq_some_iff {m : OrdMap K V} :
    m.get k = some v ↔ ∃ k', (k', v) ∈ m.entries ∧ compare k' k = .eq := by
  simp only [get, Option.map_eq_some_iff, findEntry_eq_some_iff m.sorted]
  constructor
  · rintro ⟨⟨k', v'⟩, ⟨he, hk⟩, rfl⟩
    exact ⟨k', he, hk⟩
  · rintro ⟨k', he, hk⟩
    exact ⟨(k', v), ⟨he, hk⟩, rfl⟩

lemma get_filter {p : K → Bool} (hp : ∀ a b, compare a b = .eq → p a = p b) (m : OrdMap K V)
    (k : K) : (m.filter fun e => p e.1).get k = if p k then m.get k else none := by
  ext v
  simp only [get_eq_some_iff, filter, mem_filter]
  constructor
  · rintro ⟨k', ⟨he, hpk'⟩, hcmp⟩
    rw [if_pos (hp k' k hcmp ▸ hpk'), get_eq_some_iff]
    exact ⟨k', he, hcmp⟩
  · intro h
    split_ifs at h with hpk
    obtain ⟨k', he, hcmp⟩ := get_eq_some_iff.1 h
    exact ⟨k', ⟨he, (hp k' k hcmp).trans hpk⟩, hcmp⟩

lemma foldl_insert_entries : ∀ (l : List (K × V)) (m : OrdMap K V),
    (l.foldl (fun m e => m.insert e.1 e.2) m).entries =
      l.foldl (fun entries e => insertEntry e.1 e.2 entries) m.entries
  | [], _ => rfl
  | e :: l, m => foldl_insert_entries l (m.insert e.1 e.2)

lemma ofList_entries_eq_foldl (l : List (K × V)) :
    (ofList l).entries = l.foldl (fun entries e => insertEntry e.1 e.2 entries) [] :=
  foldl_insert_entries l empty

lemma ofList_entries {l : List (K × V)} (h : SortedKeys l) : (ofList l).entries = l := by
  suffices hstep : ∀ (l : List (K × V)) (m : OrdMap K V), SortedKeys (m.entries ++ l) →
      (l.foldl (fun m e => m.insert e.1 e.2) m).entries = m.entries ++ l from hstep l empty h
  intro l
  induction l with
  | nil => exact fun m _ => (append_nil _).symm
  | cons e l ih =>
    intro m hm
    have hlast : insertEntry e.1 e.2 (m.entries ++ []) = m.entries ++ [e] :=
      insertEntry_append_left fun a ha => (sortedKeys_append.1 hm).2.2 a ha e mem_cons_self
    rw [append_nil] at hlast
    have hinsert : (m.insert e.1 e.2).entries = m.entries ++ [e] := hlast
    rw [foldl_cons, ih _ (by rw [hinsert, append_assoc]; exact hm), hinsert, append_assoc]
    rfl

lemma ofList_append_singleton (l : List (K × V)) (e : K × V) :
    ofList (l ++ [e]) = (ofList l).insert e.1 e.2 := by
  rw [ofList, foldl_append]
  rfl

end OrdMap

section

variable {K V : Type*} [Ord K]

/-- The value a list of writes gives a key last. -/
def lastValue (k : K) (l : List (K × V)) : Option V :=
  (l.reverse.find? fun e => compare k e.1 = .eq).map Prod.snd

lemma lastValue_append (k : K) (l m : List (K × V)) :
    lastValue k (l ++ m) = (lastValue k m).or (lastValue k l) := by
  rw [lastValue, reverse_append, find?_append, lastValue, lastValue, Option.map_or]

lemma lastValue_singleton (k : K) (e : K × V) :
    lastValue k [e] = if compare k e.1 = .eq then some e.2 else none := by
  by_cases h : compare k e.1 = .eq <;> simp [lastValue, h]

lemma lastValue_eq_some {k : K} (h : lastValue k l = some v) :
    ∃ e ∈ l, compare k e.1 = .eq ∧ e.2 = v := by
  obtain ⟨e, he, rfl⟩ := Option.map_eq_some_iff.1 h
  exact ⟨e, mem_reverse.1 (mem_of_find?_eq_some he), by simpa using find?_some he, rfl⟩

lemma lastValue_eq_none {k : K} : lastValue k l = none ↔ ∀ e ∈ l, compare k e.1 ≠ .eq := by
  simp [lastValue]

lemma lastValue_flatten (k : K) : ∀ parts : List (List (K × V)),
    lastValue k parts.flatten = parts.reverse.findSome? (lastValue k)
  | [] => rfl
  | part :: parts => by
    rw [flatten_cons, lastValue_append, lastValue_flatten k parts, reverse_cons,
      findSome?_append, findSome?_singleton]

lemma OrdMap.get_ofList [TransOrd K] (l : List (K × V)) (k : K) :
    (OrdMap.ofList l).get k = lastValue k l := by
  induction l using reverseRecOn with
  | nil => rfl
  | append_singleton l e ih =>
    rw [ofList_append_singleton, get_insert, lastValue_append, lastValue_singleton, ih]
    split_ifs <;> rfl

lemma OrdMap.mem_of_mem_ofList [TransOrd K] [LawfulEqOrd K] {l : List (K × V)}
    (h : e ∈ (OrdMap.ofList l).entries) : e ∈ l := by
  have hfind := (findEntry_eq_some_iff (OrdMap.ofList l).sorted).2 ⟨h, ReflOrd.compare_self⟩
  have hget : (OrdMap.ofList l).get e.1 = some e.2 := by rw [OrdMap.get, hfind, Option.map_some]
  rw [OrdMap.get_ofList] at hget
  obtain ⟨e', he', hkey, hvalue⟩ := lastValue_eq_some hget
  rwa [Prod.ext (LawfulEqOrd.eq_of_compare hkey) hvalue.symm]

end

/-! ### Merging sorted rows with sorted changes -/

section

variable {K V : Type*} [Ord K]

/-- Rows that a list of writes and deletions, both ascending, is merged into. -/
def mergeChanges : List (K × V) → List (K × Option V) → List (K × V)
  | [], changes => changes.filterMap fun change => change.2.map (change.1, ·)
  | row :: rows, changes =>
    (changes.takeWhile fun change => compare change.1 row.1 = .lt).filterMap
        (fun change => change.2.map (change.1, ·)) ++
      match changes.dropWhile fun change => compare change.1 row.1 = .lt with
      | [] => row :: mergeChanges rows []
      | change :: rest =>
        if compare change.1 row.1 = .eq then
          (change.2.map (change.1, ·)).toList ++ mergeChanges rows rest
        else row :: mergeChanges rows (change :: rest)

variable {row : K × V} {rows : List (K × V)} {before rest changes : List (K × Option V)}
  {change : K × Option V}

lemma dropWhile_eq_filter {α : Type*} {p : α → Bool} {R : α → α → Prop} : ∀ {l : List α},
    l.Pairwise R → (∀ a b, R a b → p a = false → p b = false) → l.dropWhile p = l.filter fun a => !p a
  | [], _, _ => rfl
  | a :: l, hsorted, hclosed => by
    obtain ⟨hfirst, hsorted⟩ := pairwise_cons.1 hsorted
    have ih := dropWhile_eq_filter hsorted hclosed
    rcases ha : p a with _ | _
    · rw [dropWhile_cons_of_neg (by simp [ha]), eq_comm, filter_eq_self]
      intro b hb
      rcases mem_cons.1 hb with rfl | hb
      · simp [ha]
      · simp [hclosed a b (hfirst b hb) ha]
    · rw [dropWhile_cons_of_pos ha, filter_cons_of_neg (by simp [ha]), ih]

lemma takeWhile_append_of_forall {α : Type*} {p : α → Bool} {l m : List α}
    (hl : ∀ a ∈ l, p a = true) (hm : ∀ a ∈ m.head?, p a = false) :
    (l ++ m).takeWhile p = l ∧ (l ++ m).dropWhile p = m := by
  rw [takeWhile_append_of_pos hl, dropWhile_append_of_pos hl]
  cases m with
  | nil => simp
  | cons a m =>
    have := hm a rfl
    simp [this]

lemma mergeChanges_cons_of_eq (hbefore : ∀ e ∈ before, compare e.1 row.1 = .lt)
    (heq : compare change.1 row.1 = .eq) :
    mergeChanges (row :: rows) (before ++ change :: rest) =
      before.filterMap (fun e => e.2.map (e.1, ·)) ++
        ((change.2.map (change.1, ·)).toList ++ mergeChanges rows rest) := by
  obtain ⟨htake, hdrop⟩ := takeWhile_append_of_forall
    (p := fun e : K × Option V => compare e.1 row.1 = .lt) (l := before) (m := change :: rest)
    (by simpa using hbefore) (by simp [heq])
  rw [mergeChanges, htake, hdrop]
  exact congrArg _ (if_pos heq)

lemma mergeChanges_cons_of_gt (hbefore : ∀ e ∈ before, compare e.1 row.1 = .lt)
    (hrest : ∀ e ∈ rest.head?, compare e.1 row.1 = .gt) :
    mergeChanges (row :: rows) (before ++ rest) =
      before.filterMap (fun e => e.2.map (e.1, ·)) ++ row :: mergeChanges rows rest := by
  obtain ⟨htake, hdrop⟩ := takeWhile_append_of_forall
    (p := fun e : K × Option V => compare e.1 row.1 = .lt) (l := before) (m := rest)
    (by simpa using hbefore) (fun e he => by simp [hrest e he])
  rw [mergeChanges, htake, hdrop]
  cases rest with
  | nil => rfl
  | cons change rest =>
    have hgt := hrest change rfl
    exact congrArg _ (if_neg (by rw [hgt]; decide))

lemma mergeChanges_nil_right : ∀ rows : List (K × V), mergeChanges rows [] = rows
  | [] => rfl
  | row :: rows => by
    rw [mergeChanges]
    exact congrArg (row :: ·) (mergeChanges_nil_right rows)

/-- What a merge gives: the writes, and the rows without a change. -/
structure IsMerge (rows : List (K × V)) (changes : List (K × Option V)) (merged : List (K × V)) :
    Prop where
  sorted : SortedKeys merged
  mem_iff : ∀ e, e ∈ merged ↔ (e.1, some e.2) ∈ changes ∨
    e ∈ rows ∧ ∀ change ∈ changes, compare change.1 e.1 ≠ .eq

omit [Ord K] in
lemma mem_writes {e : K × V} :
    e ∈ changes.filterMap (fun change => change.2.map (change.1, ·)) ↔ (e.1, some e.2) ∈ changes := by
  rw [mem_filterMap]
  constructor
  · rintro ⟨⟨k, v⟩, hmem, hv⟩
    obtain ⟨v, rfl, rfl⟩ := Option.map_eq_some_iff.1 hv
    exact hmem
  · exact fun hmem => ⟨_, hmem, rfl⟩

lemma sortedKeys_writes (hchanges : SortedKeys changes) :
    SortedKeys (changes.filterMap fun change => change.2.map (change.1, ·)) := by
  refine hchanges.filterMap _ fun a b hab a' ha' b' hb' => ?_
  obtain ⟨v, -, rfl⟩ := Option.map_eq_some_iff.1 ha'
  obtain ⟨w, -, rfl⟩ := Option.map_eq_some_iff.1 hb'
  exact hab

variable {merged : List (K × V)}

lemma IsMerge.lt (h : IsMerge rows changes merged) (hrows : ∀ row ∈ rows, compare k row.1 = .lt)
    (hchanges : ∀ change ∈ changes, compare k change.1 = .lt) :
    ∀ e ∈ merged, compare k e.1 = .lt := fun e he =>
  ((h.mem_iff e).1 he).elim (fun hc => hchanges _ hc) fun hr => hrows e hr.1

lemma IsMerge.append (h : IsMerge rows rest merged) (hsorted : SortedKeys before)
    (hrows : ∀ c ∈ before, ∀ r ∈ rows, compare c.1 r.1 = .lt)
    (hrest : ∀ c ∈ before, ∀ d ∈ rest, compare c.1 d.1 = .lt) :
    IsMerge rows (before ++ rest) (before.filterMap (fun e => e.2.map (e.1, ·)) ++ merged) := by
  refine ⟨sortedKeys_append.2 ⟨sortedKeys_writes hsorted, h.sorted, fun a ha =>
    h.lt (hrows _ (mem_writes.1 ha)) (hrest _ (mem_writes.1 ha))⟩, fun e => ?_⟩
  rw [mem_append, mem_writes, h.mem_iff, mem_append, or_assoc, forall_mem_append]
  refine or_congr_right (or_congr_right (and_congr_right fun he => (and_iff_right ?_).symm))
  intro c hc heq
  cases (hrows c hc e he).symm.trans heq

lemma IsMerge.skip (h : IsMerge rows changes merged) (hchange : change ∈ changes)
    (heq : compare change.1 row.1 = .eq) : IsMerge (row :: rows) changes merged := by
  refine ⟨h.sorted, fun e => (h.mem_iff e).trans (or_congr_right ?_)⟩
  rw [mem_cons]
  constructor
  · rintro ⟨he, hne⟩
    exact ⟨.inr he, hne⟩
  · rintro ⟨rfl | he, hne⟩
    · exact absurd heq (hne change hchange)
    · exact ⟨he, hne⟩

variable [TransOrd K]

lemma exists_cut (hchanges : SortedKeys changes) (k : K) :
    ∃ before rest, changes = before ++ rest ∧ (∀ e ∈ before, compare e.1 k = .lt) ∧
      ∀ e ∈ rest, (compare e.1 k = .eq ∨ compare e.1 k = .gt) := by
  refine ⟨changes.takeWhile fun e => compare e.1 k = .lt,
    changes.dropWhile fun e => compare e.1 k = .lt, (takeWhile_append_dropWhile).symm,
    fun e he => by simpa using mem_takeWhile_imp he, fun e he => ?_⟩
  rw [dropWhile_eq_filter hchanges] at he
  · have := (mem_filter.1 he).2
    rcases hc : compare e.1 k with _ | _ | _ <;> simp_all
  · intro a b hab ha
    simp only [decide_eq_false_iff_not] at ha ⊢
    exact fun hb => ha (TransCmp.lt_trans hab hb)

lemma IsMerge.keep (h : IsMerge rows rest merged) (hrows : ∀ r ∈ rows, compare row.1 r.1 = .lt)
    (hrest : ∀ c ∈ rest, compare row.1 c.1 = .lt) : IsMerge (row :: rows) rest (row :: merged) := by
  refine ⟨pairwise_cons.2 ⟨h.lt hrows hrest, h.sorted⟩, fun e => ?_⟩
  rw [mem_cons, h.mem_iff, mem_cons]
  constructor
  · rintro (rfl | he | ⟨he, hne⟩)
    · exact .inr ⟨.inl rfl, fun c hc => compare_ne_eq_of_lt (hrest c hc)⟩
    · exact .inl he
    · exact .inr ⟨.inr he, hne⟩
  · rintro (he | ⟨rfl | he, hne⟩)
    · exact .inr (.inl he)
    · exact .inl rfl
    · exact .inr (.inr ⟨he, hne⟩)

lemma isMerge_mergeChanges : ∀ {rows} {changes : List (K × Option V)},
    SortedKeys rows → SortedKeys changes → IsMerge rows changes (mergeChanges rows changes)
  | [], changes, _, hchanges => by
    refine ⟨sortedKeys_writes hchanges, fun e => ?_⟩
    rw [mergeChanges, mem_writes]
    simp
  | row :: rows, changes, hrows, hchanges => by
    obtain ⟨hfirst, hrows⟩ := pairwise_cons.1 hrows
    obtain ⟨before, rest, rfl, hbefore, hrest⟩ := exists_cut hchanges row.1
    obtain ⟨hsorted, hsortedRest, hacross⟩ := sortedKeys_append.1 hchanges
    have hbelow : ∀ c ∈ before, ∀ r ∈ rows, compare c.1 r.1 = .lt := fun c hc r hr =>
      TransCmp.lt_trans (hbefore c hc) (hfirst r hr)
    by_cases hhead : ∀ e ∈ rest.head?, compare e.1 row.1 = .gt
    · have hgreater : ∀ c ∈ rest, compare row.1 c.1 = .lt := by
        cases rest with
        | nil => simp
        | cons head tail =>
          have hgt := compare_gt_iff.1 (hhead head rfl)
          exact forall_mem_cons.2 ⟨hgt, fun c hc =>
            TransCmp.lt_trans hgt ((pairwise_cons.1 hsortedRest).1 c hc)⟩
      rw [mergeChanges_cons_of_gt hbefore hhead]
      exact ((isMerge_mergeChanges hrows hsortedRest).keep hfirst hgreater).append hsorted
        (fun c hc => forall_mem_cons.2 ⟨hbefore c hc, hbelow c hc⟩) hacross
    · cases rest with
      | nil => exact absurd (fun _ h => by cases h) hhead
      | cons change rest =>
        have heq : compare change.1 row.1 = .eq :=
          (hrest change mem_cons_self).resolve_right fun hgt =>
            hhead fun e he => Option.some.inj he ▸ hgt
        obtain ⟨hlt, hsortedRest⟩ := pairwise_cons.1 hsortedRest
        have hreplaced : IsMerge rows (change :: rest)
            ((change.2.map (change.1, ·)).toList ++ mergeChanges rows rest) := by
          have := (isMerge_mergeChanges hrows hsortedRest).append (pairwise_singleton _ change)
            (forall_mem_singleton.2 fun r hr => TransCmp.lt_of_eq_of_lt heq (hfirst r hr))
            (forall_mem_singleton.2 hlt)
          rcases change with ⟨k, _ | v⟩ <;> exact this
        rw [mergeChanges_cons_of_eq hbefore heq]
        exact (hreplaced.skip mem_cons_self heq).append hsorted
          (fun c hc => forall_mem_cons.2 ⟨hbefore c hc, hbelow c hc⟩) hacross

end

end HawDB
