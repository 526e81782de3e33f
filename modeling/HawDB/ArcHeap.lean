import Mathlib

/-!
# Shared directories of shared cells

Roots point at directories and directories at cells, both through counted pointers. Writing through
a root first makes its directory its own, then the cell it writes. No write through one root is seen
through another (`contents_makeDirMut`, `contents_cellMut`, `contents_setDir`).
-/

namespace HawDB

open List Function Nat

/-- Directories of cells, with the roots that hold a directory each. -/
structure ArcHeap (β : Type*) where
  cells : ℕ → β
  dirs : ℕ → List ℕ
  next : ℕ
  roots : List ℕ

namespace ArcHeap

variable {β : Type*} (s : ArcHeap β)

def dirOf (i : ℕ) : ℕ := s.roots.getD i 0

def contents (i : ℕ) : List β := (s.dirs (s.dirOf i)).map s.cells

def pointers : List ℕ := s.roots.dedup.flatMap s.dirs

def makeDirMut (i : ℕ) : ArcHeap β :=
  if s.roots.count (s.dirOf i) = 1 then s
  else
    { s with
      dirs := update s.dirs s.next (s.dirs (s.dirOf i))
      next := s.next + 1
      roots := s.roots.set i s.next }

/-- The cell at a position of a root's directory has another pointer. -/
def cellShared (i j : ℕ) : Bool := s.pointers.count ((s.dirs (s.dirOf i)).getD j 0) ≠ 1

/-- Makes a cell the root's own, by `copy` if it is shared, and writes it. -/
def cellMut (copy : β → β) (i j : ℕ) (g : β → β) : ArcHeap β :=
  let p := (s.dirs (s.dirOf i)).getD j 0
  if s.cellShared i j then
    { s with
      cells := update s.cells s.next (g (copy (s.cells p)))
      dirs := update s.dirs (s.dirOf i) ((s.dirs (s.dirOf i)).set j s.next)
      next := s.next + 1 }
  else { s with cells := update s.cells p (g (s.cells p)) }

/-- Replaces the pointers of a root's directory. -/
def setDir (i : ℕ) (l : List ℕ) : ArcHeap β :=
  { s with dirs := update s.dirs (s.dirOf i) l }

/-- Puts a new cell into a root's directory. -/
def insertCell (i j : ℕ) (x : β) : ArcHeap β :=
  { s with
    cells := update s.cells s.next x
    dirs := update s.dirs (s.dirOf i) ((s.dirs (s.dirOf i)).insertIdx j s.next)
    next := s.next + 1 }

def allocate (l : List β) : ArcHeap β where
  cells := fun p => if s.next ≤ p then (l[p - s.next]?).getD (s.cells p) else s.cells p
  dirs := update s.dirs (s.next + l.length) (range' s.next l.length)
  next := s.next + l.length + 1
  roots := s.roots

def replaceDir (i : ℕ) (l : List β) : ArcHeap β :=
  { s.allocate l with roots := s.roots.set i (s.next + l.length) }

/-- Adds a root with a new directory of new cells. -/
def addRoot (l : List β) : ArcHeap β :=
  { s.allocate l with roots := s.roots ++ [s.next + l.length] }

/-- Adds a root with the directory of another. -/
def share (i : ℕ) : ArcHeap β := { s with roots := s.roots ++ [s.dirOf i] }

def drop (i : ℕ) : ArcHeap β := { s with roots := s.roots.eraseIdx i }

/-- Every pointer in use is to something allocated. -/
def WF : Prop := ∀ d ∈ s.roots, d < s.next ∧ ∀ p ∈ s.dirs d, p < s.next

def Exclusive (i : ℕ) : Prop := s.roots.count (s.dirOf i) = 1

variable {s} {i j k : ℕ}

lemma dirOf_mem (hi : i < s.roots.length) : s.dirOf i ∈ s.roots := by
  simp [dirOf, hi]

lemma WF.dir_lt (h : s.WF) (hi : i < s.roots.length) : s.dirOf i < s.next :=
  (h _ (dirOf_mem hi)).1

lemma WF.pointer_lt (h : s.WF) (hi : i < s.roots.length) {p : ℕ}
    (hp : p ∈ s.dirs (s.dirOf i)) : p < s.next :=
  (h _ (dirOf_mem hi)).2 p hp

/-- A value that occurs once occurs at one position. -/
theorem eq_of_count_eq_one {l : List ℕ} {a : ℕ} (h : l.count a = 1) (hj : l[j]? = some a)
    (hk : l[k]? = some a) : j = k := by
  obtain ⟨hj', rfl⟩ := List.getElem?_eq_some_iff.1 hj
  obtain ⟨hk', hjk⟩ := List.getElem?_eq_some_iff.1 hk
  by_contra hne
  have hdup : Duplicate l[j] l := duplicate_iff_exists_distinct_get.2 (by
    rcases lt_or_gt_of_ne hne with hlt | hlt
    · exact ⟨⟨j, hj'⟩, ⟨k, hk'⟩, hlt, rfl, hjk.symm⟩
    · exact ⟨⟨k, hk'⟩, ⟨j, hj'⟩, hlt, hjk.symm, rfl⟩)
  have := duplicate_iff_two_le_count.1 hdup
  omega

lemma Exclusive.dirOf_ne (h : s.Exclusive i) (hi : i < s.roots.length)
    (hk : k < s.roots.length) (hki : k ≠ i) : s.dirOf k ≠ s.dirOf i := by
  intro heq
  refine hki (eq_of_count_eq_one h ?_ ?_)
  · rw [← heq]
    simp [dirOf, hk]
  · simp [dirOf, hi]

lemma dirOf_set (d k : ℕ) (hi : i < s.roots.length) :
    (s.roots.set i d).getD k 0 = if k = i then d else s.dirOf k := by
  unfold dirOf
  rw [getD_eq_getElem?_getD, getElem?_set, getD_eq_getElem?_getD]
  by_cases hki : k = i
  · simp [hki, hi]
  · simp [hki, Ne.symm hki]

lemma count_pointers {d : ℕ} (hd : d ∈ s.roots) (p : ℕ) :
    s.pointers.count p = (s.dirs d).count p + ((s.roots.dedup.erase d).flatMap s.dirs).count p := by
  have hperm := (perm_cons_erase (mem_dedup.2 hd)).flatMap_right s.dirs
  rw [pointers, hperm.count_eq, flatMap_cons, count_append]

lemma not_shared (hi : i < s.roots.length) (hj : j < (s.dirs (s.dirOf i)).length)
    (h : s.cellShared i j = false) :
    (s.dirs (s.dirOf i)).count ((s.dirs (s.dirOf i)).getD j 0) = 1 ∧
      ∀ d ∈ s.roots, d ≠ s.dirOf i → (s.dirs (s.dirOf i)).getD j 0 ∉ s.dirs d := by
  have hone : s.pointers.count ((s.dirs (s.dirOf i)).getD j 0) = 1 := by
    simpa [cellShared] using h
  have hcount := count_pointers (dirOf_mem hi) ((s.dirs (s.dirOf i)).getD j 0)
  have hpos : 0 < (s.dirs (s.dirOf i)).count ((s.dirs (s.dirOf i)).getD j 0) := by
    rw [count_pos_iff]
    simp [hj]
  refine ⟨by omega, fun d hd hne hmem => ?_⟩
  have hother : 0 < ((s.roots.dedup.erase (s.dirOf i)).flatMap s.dirs).count
      ((s.dirs (s.dirOf i)).getD j 0) := by
    rw [count_pos_iff, mem_flatMap]
    exact ⟨d, (mem_erase_of_ne hne).2 (mem_dedup.2 hd), hmem⟩
  omega

/-- A write at one address does not show where the address is not used. -/
theorem map_update_of_notMem {cells : ℕ → β} {p : ℕ} {x : β} {l : List ℕ} (h : p ∉ l) :
    l.map (update cells p x) = l.map cells :=
  map_congr_left fun q hq => update_of_ne (by rintro rfl; exact h hq) _ _

lemma wf_makeDirMut (h : s.WF) (hi : i < s.roots.length) : (s.makeDirMut i).WF := by
  unfold makeDirMut
  split_ifs with hone
  · exact h
  intro d hd
  by_cases hdn : d = s.next
  · subst hdn
    simp only [update_self]
    exact ⟨lt_succ_self _, fun p hp => lt_succ_of_lt (h.pointer_lt hi hp)⟩
  · obtain ⟨hlt, hp⟩ := h d ((mem_or_eq_of_mem_set hd).resolve_right hdn)
    simp only [update_of_ne hdn]
    exact ⟨lt_succ_of_lt hlt, fun p hmem => lt_succ_of_lt (hp p hmem)⟩

@[simp] lemma length_roots_makeDirMut : (s.makeDirMut i).roots.length = s.roots.length := by
  unfold makeDirMut
  split_ifs <;> simp

lemma exclusive_makeDirMut (h : s.WF) (hi : i < s.roots.length) :
    (s.makeDirMut i).Exclusive i := by
  unfold makeDirMut
  split_ifs with hone
  · exact hone
  have hfresh : s.roots.count s.next = 0 :=
    count_eq_zero.2 fun hmem => absurd (h _ hmem).1 (lt_irrefl _)
  have hself : (s.roots.set i s.next).getD i 0 = s.next := by rw [dirOf_set _ _ hi, if_pos rfl]
  have hne : s.roots[i] ≠ s.next := (h _ (getElem_mem hi)).1.ne
  show (s.roots.set i s.next).count ((s.roots.set i s.next).getD i 0) = 1
  rw [hself, count_set hi, hfresh]
  simp [hne]

lemma contents_makeDirMut (h : s.WF) (hi : i < s.roots.length) (hk : k < s.roots.length) :
    (s.makeDirMut i).contents k = s.contents k := by
  unfold makeDirMut
  split_ifs with hone
  · rfl
  show (update s.dirs s.next _ ((s.roots.set i s.next).getD k 0)).map s.cells = _
  rw [dirOf_set _ _ hi]
  split_ifs with hki
  · rw [hki, update_self]
    rfl
  · rw [update_of_ne (h.dir_lt hk).ne]
    rfl

section

variable (copy : β → β) (g : β → β)

@[simp] lemma roots_cellMut : (s.cellMut copy i j g).roots = s.roots := by
  unfold cellMut
  split_ifs <;> rfl

lemma exclusive_cellMut (h : s.Exclusive i) : (s.cellMut copy i j g).Exclusive i := by
  unfold Exclusive dirOf at *
  rwa [roots_cellMut]

lemma wf_cellMut (h : s.WF) : (s.cellMut copy i j g).WF := by
  unfold cellMut
  split_ifs
  · intro d hd
    obtain ⟨hlt, hp⟩ := h d hd
    refine ⟨lt_succ_of_lt hlt, fun p hmem => ?_⟩
    simp only at hmem ⊢
    by_cases hdi : d = s.dirOf i
    · subst hdi
      rw [update_self] at hmem
      rcases mem_or_eq_of_mem_set hmem with hmem | rfl
      · exact lt_succ_of_lt (hp p hmem)
      · exact lt_succ_self _
    · rw [update_of_ne hdi] at hmem
      exact lt_succ_of_lt (hp p hmem)
  · exact h

lemma contents_cellMut_self (h : s.WF) (hi : i < s.roots.length) {x : β}
    (hx : (s.contents i)[j]? = some x) : (s.cellMut copy i j g).contents i =
      (s.contents i).set j (g (if s.cellShared i j then copy x else x)) := by
  obtain ⟨p, hp, rfl⟩ : ∃ p, (s.dirs (s.dirOf i))[j]? = some p ∧ s.cells p = x := by
    simpa [contents] using hx
  have hj : j < (s.dirs (s.dirOf i)).length := (List.getElem?_eq_some_iff.1 hp).1
  have hget : (s.dirs (s.dirOf i)).getD j 0 = p := by simp [hp]
  unfold cellMut
  simp only [hget]
  split_ifs with hshared
  · show (update s.dirs (s.dirOf i) _ (s.dirOf i)).map
      (update s.cells s.next (g (copy (s.cells p)))) = _
    rw [update_self, map_set, update_self,
      map_update_of_notMem fun hmem => lt_irrefl _ (h.pointer_lt hi hmem)]
    rfl
  · obtain ⟨hone, -⟩ := not_shared hi hj (by simpa using hshared)
    rw [hget] at hone
    refine ext_getElem? fun k => ?_
    show ((s.dirs (s.dirOf i)).map (update s.cells p _))[k]? =
      (((s.dirs (s.dirOf i)).map s.cells).set j _)[k]?
    rw [getElem?_set, getElem?_map, getElem?_map]
    by_cases hjk : j = k
    · subst hjk
      rw [hp]
      simp [hj]
    rw [if_neg hjk]
    rcases hq : (s.dirs (s.dirOf i))[k]? with _ | q
    · rfl
    have hqp : q ≠ p := by
      rintro rfl
      exact hjk (eq_of_count_eq_one hone hp hq)
    simp [update_of_ne hqp]

lemma contents_cellMut_of_ne (h : s.WF) (hex : s.Exclusive i) (hi : i < s.roots.length)
    (hj : j < (s.dirs (s.dirOf i)).length) (hk : k < s.roots.length) (hki : k ≠ i) :
    (s.cellMut copy i j g).contents k = s.contents k := by
  have hne := hex.dirOf_ne hi hk hki
  unfold cellMut
  split_ifs with hshared
  · show (update s.dirs (s.dirOf i) _ (s.dirOf k)).map (update s.cells s.next _) = _
    rw [update_of_ne hne, map_update_of_notMem fun hmem => lt_irrefl _ (h.pointer_lt hk hmem)]
    rfl
  · obtain ⟨-, hother⟩ := not_shared hi hj (by simpa using hshared)
    exact map_update_of_notMem (hother _ (dirOf_mem hk) hne)

end

section

variable {l : List ℕ} {x : β}

lemma contents_setDir_of_ne (hex : s.Exclusive i) (hi : i < s.roots.length)
    (hk : k < s.roots.length) (hki : k ≠ i) : (s.setDir i l).contents k = s.contents k := by
  show (update s.dirs (s.dirOf i) l (s.dirOf k)).map s.cells = _
  rw [update_of_ne (hex.dirOf_ne hi hk hki)]
  rfl

lemma contents_setDir_self : (s.setDir i l).contents i = l.map s.cells := by
  show (update s.dirs (s.dirOf i) l (s.dirOf i)).map s.cells = _
  rw [update_self]

lemma wf_setDir (h : s.WF) (hl : ∀ p ∈ l, p < s.next) : (s.setDir i l).WF := by
  intro d hd
  obtain ⟨hlt, hp⟩ := h d hd
  refine ⟨hlt, fun p hmem => ?_⟩
  change p ∈ update s.dirs (s.dirOf i) l d at hmem
  by_cases hdi : d = s.dirOf i
  · rw [hdi, update_self] at hmem
    exact hl p hmem
  · rw [update_of_ne hdi] at hmem
    exact hp p hmem

lemma wf_insertCell (h : s.WF) (hi : i < s.roots.length) : (s.insertCell i j x).WF := by
  intro d hd
  obtain ⟨hlt, hp⟩ := h d hd
  refine ⟨lt_succ_of_lt hlt, fun p hmem => ?_⟩
  change p ∈ update s.dirs (s.dirOf i) _ d at hmem
  by_cases hdi : d = s.dirOf i
  · rw [hdi, update_self] at hmem
    rcases eq_or_mem_of_mem_insertIdx hmem with rfl | hmem
    · exact lt_succ_self _
    · exact lt_succ_of_lt (h.pointer_lt hi hmem)
  · rw [update_of_ne hdi] at hmem
    exact lt_succ_of_lt (hp p hmem)

lemma contents_insertCell_self (h : s.WF) (hi : i < s.roots.length) :
    (s.insertCell i j x).contents i = (s.contents i).insertIdx j x := by
  show (update s.dirs (s.dirOf i) ((s.dirs (s.dirOf i)).insertIdx j s.next)
    (s.dirOf i)).map (update s.cells s.next x) = _
  rw [update_self, map_insertIdx, update_self,
    map_update_of_notMem fun hmem => lt_irrefl _ (h.pointer_lt hi hmem)]
  rfl

lemma contents_insertCell_of_ne (h : s.WF) (hex : s.Exclusive i) (hi : i < s.roots.length)
    (hk : k < s.roots.length) (hki : k ≠ i) : (s.insertCell i j x).contents k = s.contents k := by
  show (update s.dirs (s.dirOf i) _ (s.dirOf k)).map (update s.cells s.next x) = _
  rw [update_of_ne (hex.dirOf_ne hi hk hki),
    map_update_of_notMem fun hmem => lt_irrefl _ (h.pointer_lt hk hmem)]
  rfl

end

section

variable {l : List β}

lemma allocate_cells_of_lt {p : ℕ} (h : p < s.next) : (s.allocate l).cells p = s.cells p :=
  if_neg (not_le.2 h)

lemma allocate_dir {d : ℕ} (hd : d < s.next) (hp : ∀ p ∈ s.dirs d, p < s.next) :
    (s.allocate l).dirs d = s.dirs d ∧
      ((s.allocate l).dirs d).map (s.allocate l).cells = (s.dirs d).map s.cells := by
  have hdir : (s.allocate l).dirs d = s.dirs d := update_of_ne (by omega) _ _
  rw [hdir]
  exact ⟨rfl, map_congr_left fun p hmem => allocate_cells_of_lt (hp p hmem)⟩

lemma allocate_new : ((s.allocate l).dirs (s.next + l.length)).map (s.allocate l).cells = l := by
  show (update s.dirs _ _ _).map _ = _
  rw [update_self]
  refine ext_getElem (by simp) fun n hn hn' => ?_
  simp [allocate, hn']

lemma wf_allocate (h : s.WF) {roots : List ℕ}
    (hroots : ∀ d ∈ roots, d ∈ s.roots ∨ d = s.next + l.length) :
    WF { s.allocate l with roots } := by
  intro d hd
  rcases hroots d hd with hd | rfl
  · obtain ⟨hlt, hp⟩ := h d hd
    have hnext : s.next ≤ s.next + l.length + 1 := by omega
    refine ⟨hlt.trans_le hnext, fun p hmem => ?_⟩
    simp only [(allocate_dir hlt hp).1] at hmem
    exact (hp p hmem).trans_le hnext
  · refine ⟨lt_succ_self _, fun p hmem => ?_⟩
    change p ∈ update s.dirs _ _ _ at hmem
    rw [update_self, mem_range'_1] at hmem
    exact hmem.2.trans (lt_succ_self _)

lemma wf_replaceDir (h : s.WF) : (s.replaceDir i l).WF :=
  wf_allocate h fun _ hd => mem_or_eq_of_mem_set hd

lemma contents_replaceDir (h : s.WF) (hi : i < s.roots.length) (hk : k < s.roots.length) :
    (s.replaceDir i l).contents k = if k = i then l else s.contents k := by
  show ((s.allocate l).dirs ((s.roots.set i (s.next + l.length)).getD k 0)).map
    (s.allocate l).cells = _
  rw [dirOf_set _ _ hi]
  split_ifs with hki
  · exact allocate_new
  · exact (allocate_dir (h.dir_lt hk) fun p hp => h.pointer_lt hk hp).2

lemma wf_addRoot (h : s.WF) : (s.addRoot l).WF :=
  wf_allocate h fun d hd => by simpa using hd

lemma contents_addRoot (h : s.WF) (hk : k ≤ s.roots.length) :
    (s.addRoot l).contents k = if k = s.roots.length then l else s.contents k := by
  show ((s.allocate l).dirs ((s.roots ++ [s.next + l.length]).getD k 0)).map
    (s.allocate l).cells = _
  split_ifs with heq
  · subst heq
    rw [getD_append_right _ _ _ _ le_rfl, Nat.sub_self]
    exact allocate_new
  · have hlt : k < s.roots.length := lt_of_le_of_ne hk heq
    rw [getD_append _ _ _ _ hlt]
    exact (allocate_dir (h.dir_lt hlt) fun p hp => h.pointer_lt hlt hp).2

lemma wf_share (h : s.WF) (hi : i < s.roots.length) : (s.share i).WF := by
  intro d hd
  rcases mem_append.1 hd with hd | hd
  · exact h d hd
  · rw [mem_singleton.1 hd]
    exact h _ (dirOf_mem hi)

lemma contents_share (hk : k ≤ s.roots.length) :
    (s.share i).contents k = if k = s.roots.length then s.contents i else s.contents k := by
  show (s.dirs ((s.roots ++ [s.dirOf i]).getD k 0)).map s.cells = _
  split_ifs with heq
  · subst heq
    rw [getD_append_right _ _ _ _ le_rfl, Nat.sub_self]
    rfl
  · rw [getD_append _ _ _ _ (lt_of_le_of_ne hk heq)]
    rfl

lemma wf_drop (h : s.WF) : (s.drop i).WF :=
  fun d hd => h d (mem_of_mem_eraseIdx hd)

lemma contents_drop : (s.drop i).contents k = s.contents (if k < i then k else k + 1) := by
  show (s.dirs ((s.roots.eraseIdx i).getD k 0)).map s.cells = _
  rw [getD_eq_getElem?_getD, getElem?_eraseIdx]
  unfold contents dirOf
  split_ifs <;> rw [getD_eq_getElem?_getD]

end

end ArcHeap

end HawDB
