import HawDB.OrderedMap

/-!
# Trees of lists and keyed maps

The items of a list are one level below it, the values of a map two levels. `Everywhere` states a
property of every node at its depth, and `traverse` rebuilds a tree leaf by leaf; it gives a tree
back unchanged exactly when every node is one that it gives back (`traverse_eq_self_iff`).
-/

namespace HawDB

open List

inductive Tree (K L : Type) where
  | leaf (label : L)
  | list (items : List (Tree K L))
  | map (entries : List (K × Tree K L))

namespace Tree

variable {K L M : Type}

@[elab_as_elim] lemma induct {motive : Tree K L → Prop} (leaf : ∀ l, motive (.leaf l))
    (list : ∀ ts, (∀ t ∈ ts, motive t) → motive (.list ts))
    (map : ∀ es, (∀ e ∈ es, motive e.2) → motive (.map es)) (t : Tree K L) : motive t :=
  @Tree.rec K L motive (fun ts => ∀ t ∈ ts, motive t) (fun es => ∀ e ∈ es, motive e.2)
    (fun e => motive e.2) leaf list map nofun
    (fun _ _ ht hts => forall_mem_cons.2 ⟨ht, hts⟩) nofun
    (fun _ _ he hes => forall_mem_cons.2 ⟨he, hes⟩) (fun _ _ ht => ht) t

/-! ## Properties of every node -/

section

variable (p : ℕ → Tree K L → Prop)

mutual

/-- The property holds at every node, each at its depth. -/
def Everywhere : ℕ → Tree K L → Prop
  | d, .leaf l => p d (.leaf l)
  | d, .list ts => p d (.list ts) ∧ EverywhereList (d + 1) ts
  | d, .map es => p d (.map es) ∧ EverywhereMap (d + 2) es

def EverywhereList : ℕ → List (Tree K L) → Prop
  | _, [] => True
  | d, t :: ts => Everywhere d t ∧ EverywhereList d ts

def EverywhereMap : ℕ → List (K × Tree K L) → Prop
  | _, [] => True
  | d, (_, t) :: es => Everywhere d t ∧ EverywhereMap d es

end

mutual

instance decidableEverywhere [∀ d t, Decidable (p d t)] :
    ∀ d (t : Tree K L), Decidable (Everywhere p d t)
  | d, .leaf l => inferInstanceAs (Decidable (p d (.leaf l)))
  | d, .list ts =>
    have := decidableEverywhereList (d + 1) ts
    inferInstanceAs (Decidable (p d (.list ts) ∧ EverywhereList p (d + 1) ts))
  | d, .map es =>
    have := decidableEverywhereMap (d + 2) es
    inferInstanceAs (Decidable (p d (.map es) ∧ EverywhereMap p (d + 2) es))

instance decidableEverywhereList [∀ d t, Decidable (p d t)] :
    ∀ d (ts : List (Tree K L)), Decidable (EverywhereList p d ts)
  | _, [] => inferInstanceAs (Decidable True)
  | d, t :: ts =>
    have := decidableEverywhere d t
    have := decidableEverywhereList d ts
    inferInstanceAs (Decidable (Everywhere p d t ∧ EverywhereList p d ts))

instance decidableEverywhereMap [∀ d t, Decidable (p d t)] :
    ∀ d (es : List (K × Tree K L)), Decidable (EverywhereMap p d es)
  | _, [] => inferInstanceAs (Decidable True)
  | d, (_, t) :: es =>
    have := decidableEverywhere d t
    have := decidableEverywhereMap d es
    inferInstanceAs (Decidable (Everywhere p d t ∧ EverywhereMap p d es))

end

variable {p} {q : ℕ → Tree K L → Prop} {d : ℕ}

lemma everywhereList_iff : ∀ {ts}, EverywhereList p d ts ↔ ∀ t ∈ ts, Everywhere p d t
  | [] => by simp [EverywhereList]
  | t :: ts => by rw [EverywhereList, everywhereList_iff, forall_mem_cons]

lemma everywhereMap_iff : ∀ {es}, EverywhereMap p d es ↔ ∀ e ∈ es, Everywhere p d e.2
  | [] => by simp [EverywhereMap]
  | (_, t) :: es => by rw [EverywhereMap, everywhereMap_iff, forall_mem_cons]

@[simp] lemma everywhere_leaf {l : L} : Everywhere p d (.leaf l) ↔ p d (.leaf l) := by
  rw [Everywhere]

@[simp] lemma everywhere_list {ts : List (Tree K L)} :
    Everywhere p d (.list ts) ↔ p d (.list ts) ∧ ∀ t ∈ ts, Everywhere p (d + 1) t := by
  rw [Everywhere, everywhereList_iff]

@[simp] lemma everywhere_map {es : List (K × Tree K L)} :
    Everywhere p d (.map es) ↔ p d (.map es) ∧ ∀ e ∈ es, Everywhere p (d + 2) e.2 := by
  rw [Everywhere, everywhereMap_iff]

lemma Everywhere.imp (h : ∀ d t, p d t → q d t) {t : Tree K L} (ht : Everywhere p d t) :
    Everywhere q d t := by
  induction t using Tree.induct generalizing d with
  | leaf l => exact everywhere_leaf.2 (h _ _ (everywhere_leaf.1 ht))
  | list ts ih =>
    obtain ⟨hroot, hts⟩ := everywhere_list.1 ht
    exact everywhere_list.2 ⟨h _ _ hroot, fun t hmem => ih t hmem (hts t hmem)⟩
  | map es ih =>
    obtain ⟨hroot, hes⟩ := everywhere_map.1 ht
    exact everywhere_map.2 ⟨h _ _ hroot, fun e hmem => ih e hmem (hes e hmem)⟩

lemma Everywhere.congr {r : ℕ → Tree K L → Prop} (h : ∀ d t, r d t → (p d t ↔ q d t))
    {t : Tree K L} (ht : Everywhere r d t) : Everywhere p d t ↔ Everywhere q d t := by
  induction t using Tree.induct generalizing d with
  | leaf l => rw [everywhere_leaf, everywhere_leaf, h _ _ (everywhere_leaf.1 ht)]
  | list ts ih =>
    obtain ⟨hroot, hts⟩ := everywhere_list.1 ht
    rw [everywhere_list, everywhere_list, h _ _ hroot,
      forall₂_congr fun t hmem => ih t hmem (hts t hmem)]
  | map es ih =>
    obtain ⟨hroot, hes⟩ := everywhere_map.1 ht
    rw [everywhere_map, everywhere_map, h _ _ hroot,
      forall₂_congr fun e hmem => ih e hmem (hes e hmem)]

end

/-! ## Traversals -/

section

variable (onLeaf : ℕ → L → Option (Tree K M))
  (onMap : ℕ → List (K × Tree K M) → Option (List (K × Tree K M)))

mutual

/-- Rebuilds a tree: each leaf by `onLeaf`, each map, from its rebuilt entries, by `onMap`. -/
def traverse : ℕ → Tree K L → Option (Tree K M)
  | d, .leaf l => onLeaf d l
  | d, .list ts => (traverseList (d + 1) ts).map .list
  | d, .map es => (traverseMap (d + 2) es).bind fun es => (onMap d es).map .map

def traverseList : ℕ → List (Tree K L) → Option (List (Tree K M))
  | _, [] => some []
  | d, t :: ts => (traverse d t).bind fun t => (traverseList d ts).map (t :: ·)

def traverseMap : ℕ → List (K × Tree K L) → Option (List (K × Tree K M))
  | _, [] => some []
  | d, (k, t) :: es => (traverse d t).bind fun t => (traverseMap d es).map ((k, t) :: ·)

end

variable {onLeaf onMap} {d : ℕ}

lemma traverseMap_keys : ∀ {es} {es' : List (K × Tree K M)},
    traverseMap onLeaf onMap d es = some es' → es'.map Prod.fst = es.map Prod.fst
  | [], _, h => by
    cases h
    rfl
  | (k, t) :: es, _, h => by
    rw [traverseMap, Option.bind_eq_some_iff] at h
    obtain ⟨t', -, h⟩ := h
    obtain ⟨es', hes, rfl⟩ := Option.map_eq_some_iff.1 h
    rw [map_cons, map_cons, traverseMap_keys hes]

variable (onLeaf) in
/-- A node that the traversal gets past, when it refuses maps by their depth. -/
def Passes (m : ℕ → Prop) (d : ℕ) : Tree K L → Prop
  | .leaf l => (onLeaf d l).isSome
  | .list _ => True
  | .map _ => m d

lemma traverseList_isSome_iff : ∀ {ts},
    (traverseList onLeaf onMap d ts).isSome ↔ ∀ t ∈ ts, (traverse onLeaf onMap d t).isSome
  | [] => by simp [traverseList]
  | t :: ts => by
    rw [forall_mem_cons, ← traverseList_isSome_iff, traverseList]
    cases traverse onLeaf onMap d t <;> simp

lemma traverseMap_isSome_iff : ∀ {es},
    (traverseMap onLeaf onMap d es).isSome ↔ ∀ e ∈ es, (traverse onLeaf onMap d e.2).isSome
  | [] => by simp [traverseMap]
  | (k, t) :: es => by
    rw [forall_mem_cons, ← traverseMap_isSome_iff, traverseMap]
    cases traverse onLeaf onMap d t <;> simp

/-- A traversal that refuses maps by their depth succeeds exactly when it gets past every node. -/
theorem traverse_isSome_iff {m : ℕ → Prop} (hmap : ∀ d es, (onMap d es).isSome ↔ m d)
    {t : Tree K L} : (traverse onLeaf onMap d t).isSome ↔ Everywhere (Passes onLeaf m) d t := by
  induction t using induct generalizing d with
  | leaf l => rw [traverse, everywhere_leaf, Passes]
  | list ts ih =>
    rw [traverse, everywhere_list, ← forall₂_congr fun t hmem => ih t hmem,
      ← traverseList_isSome_iff]
    simp [Passes]
  | map es ih =>
    rw [traverse, everywhere_map, ← forall₂_congr fun e hmem => ih e hmem,
      ← traverseMap_isSome_iff, Passes]
    cases traverseMap onLeaf onMap (d + 2) es with
    | none => simp
    | some es' => simp [← hmap d es']

end

section

variable {onLeaf : ℕ → L → Option (Tree K L)}
  {onMap : ℕ → List (K × Tree K L) → Option (List (K × Tree K L))} {d : ℕ}

lemma traverseList_eq_self_iff : ∀ {ts},
    traverseList onLeaf onMap d ts = some ts ↔ ∀ t ∈ ts, traverse onLeaf onMap d t = some t
  | [] => by simp [traverseList]
  | t :: ts => by
    rw [forall_mem_cons, ← traverseList_eq_self_iff, traverseList]
    cases traverse onLeaf onMap d t <;> cases traverseList onLeaf onMap d ts <;> simp

lemma traverseMap_eq_self_iff : ∀ {es},
    traverseMap onLeaf onMap d es = some es ↔ ∀ e ∈ es, traverse onLeaf onMap d e.2 = some e.2
  | [] => by simp [traverseMap]
  | (k, t) :: es => by
    rw [forall_mem_cons, ← traverseMap_eq_self_iff, traverseMap]
    cases traverse onLeaf onMap d t <;> cases traverseMap onLeaf onMap d es <;> simp

variable (onLeaf onMap) in
/-- A node that the traversal gives back. -/
def Fixed (d : ℕ) : Tree K L → Prop
  | .leaf l => onLeaf d l = some (.leaf l)
  | .list _ => True
  | .map es => onMap d es = some es

/-- The keys of a map node satisfy `S`. -/
def KeysIn (S : List K → Prop) : Tree K L → Prop
  | .leaf _ | .list _ => True
  | .map es => S (es.map Prod.fst)

instance (S : List K → Prop) [DecidablePred S] : DecidablePred (KeysIn S : Tree K L → Prop)
  | .leaf _ | .list _ => inferInstanceAs (Decidable True)
  | .map es => inferInstanceAs (Decidable (S (es.map Prod.fst)))

/-- A traversal that only ever gives a map back or refuses it gives a tree back exactly when it
gives every node back. -/
theorem traverse_eq_self_iff {S : List K → Prop}
    (hmap : ∀ d es, S (es.map Prod.fst) → onMap d es = some es ∨ onMap d es = none)
    {t : Tree K L} (ht : Everywhere (fun _ => KeysIn S) d t) :
    traverse onLeaf onMap d t = some t ↔ Everywhere (Fixed onLeaf onMap) d t := by
  induction t using Tree.induct generalizing d with
  | leaf l => rw [traverse, everywhere_leaf, Fixed]
  | list ts ih =>
    rw [everywhere_list] at ht
    rw [traverse, everywhere_list]
    simp only [Fixed, true_and]
    rw [← forall₂_congr fun t hmem => ih t hmem (ht.2 t hmem), ← traverseList_eq_self_iff]
    cases traverseList onLeaf onMap (d + 1) ts <;> simp
  | map es ih =>
    rw [everywhere_map] at ht
    rw [traverse, everywhere_map]
    simp only [Fixed]
    rw [← forall₂_congr fun e hmem => ih e hmem (ht.2 e hmem), ← traverseMap_eq_self_iff]
    constructor
    · intro h
      obtain ⟨es', hes, h⟩ := Option.bind_eq_some_iff.1 h
      obtain ⟨_, hfixed, ⟨⟩⟩ := Option.map_eq_some_iff.1 h
      have hkeys : S (es'.map Prod.fst) := by
        rw [traverseMap_keys hes]
        exact ht.1
      rcases hmap d es' hkeys with hsame | hnone
      · cases hsame.symm.trans hfixed
        exact ⟨hfixed, hes⟩
      · cases hnone.symm.trans hfixed
    · rintro ⟨hfixed, hes⟩
      rw [hes, Option.bind_some, hfixed, Option.map_some]

end

end Tree

end HawDB
