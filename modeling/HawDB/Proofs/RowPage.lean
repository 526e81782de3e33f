import HawDB.Proofs.RowDelta

/-!
# The binary searches over row pages

Each search keeps what it has ruled out. So a row search finds the entry of the key
(`findRowLoop_eq`), the lower bound of a page splits its rows (`drop_lowerBoundLoop`), and the page
search answers with a page before which every page is below the key (`findPageLoop_spec`).
-/

namespace HawDB

open List Option

section

variable {α : Type*} {p : α → Bool}

lemma drop_eq_filter_of_cut : ∀ {l : List α} {i : ℕ}, (∀ j a, l[j]? = some a → j < i → p a = true) →
    (∀ j a, l[j]? = some a → i ≤ j → p a = false) → l.drop i = l.filter fun a => !p a
  | [], i, _, _ => by simp
  | a :: l, 0, _, hafter => by
    have hall : ∀ b ∈ a :: l, (!p b) = true := fun b hb => by
      obtain ⟨j, hj⟩ := mem_iff_getElem?.1 hb
      simp [hafter j b hj (Nat.zero_le j)]
    rw [drop_zero, filter_eq_self.2 hall]
  | a :: l, i + 1, hbefore, hafter => by
    have ih : l.drop i = l.filter fun a => !p a := drop_eq_filter_of_cut
      (fun j b hb hj => hbefore (j + 1) b hb (by omega))
      (fun j b hb hj => hafter (j + 1) b hb (by omega))
    rw [drop_succ_cons, ih, filter_cons_of_neg]
    simp [hbefore 0 a rfl (by omega)]

lemma takeWhile_eq_filter {R : α → α → Prop} : ∀ {l : List α}, l.Pairwise R →
    (∀ a b, R a b → p a = false → p b = false) → l.takeWhile p = l.filter p
  | [], _, _ => rfl
  | a :: l, hsorted, hclosed => by
    obtain ⟨hfirst, hsorted⟩ := pairwise_cons.1 hsorted
    have ih := takeWhile_eq_filter hsorted hclosed
    rcases ha : p a with _ | _
    · rw [takeWhile_cons_of_neg (by simp [ha]), filter_cons_of_neg (by simp [ha]), eq_comm,
        filter_eq_nil_iff]
      intro b hb
      simp [hclosed a b (hfirst b hb) ha]
    · rw [takeWhile_cons_of_pos ha, filter_cons_of_pos ha, ih]

end

variable {i j lower upper : ℕ}

section

variable {rows : List RowPageEntry} {encoded : Bytes}

lemma compare_getElem (hsorted : SortedKeys rows) {a b : RowPageEntry} (ha : rows[i]? = some a)
    (hb : rows[j]? = some b) (hij : i < j) : compare a.1 b.1 = .lt := by
  obtain ⟨hi, rfl⟩ := List.getElem?_eq_some_iff.1 ha
  obtain ⟨hj, rfl⟩ := List.getElem?_eq_some_iff.1 hb
  exact pairwise_iff_getElem.1 hsorted i j hi hj hij

lemma findRowLoop_eq (hsorted : SortedKeys rows)
    (hbefore : ∀ j a, rows[j]? = some a → j < lower → compare a.1 encoded = .lt)
    (hafter : ∀ j a, rows[j]? = some a → upper ≤ j → compare a.1 encoded = .gt)
    (hupper : upper ≤ rows.length) :
    RowPage.findRowLoop rows encoded lower upper = findEntry encoded rows := by
  fun_induction RowPage.findRowLoop rows encoded lower upper with
  | case1 lower upper hlt middle hnone =>
    have := getElem?_eq_none_iff.1 hnone
    omega
  | case2 lower upper hlt middle entry hentry hcompare ih =>
    refine ih (fun j a ha hj => ?_) hafter hupper
    rcases Nat.lt_or_eq_of_le (Nat.le_of_lt_succ hj) with hj | rfl
    · exact Std.TransCmp.lt_trans (compare_getElem hsorted ha hentry hj) hcompare
    · rw [← some.inj (hentry.symm.trans ha)]
      exact hcompare
  | case3 lower upper hlt middle entry hentry hcompare ih =>
    refine ih hbefore (fun j a ha hj => ?_) (by omega)
    rcases Nat.lt_or_eq_of_le hj with hj | rfl
    · rw [compare_gt_iff]
      exact Std.TransCmp.lt_trans (compare_gt_iff.1 hcompare) (compare_getElem hsorted hentry ha hj)
    · rw [← some.inj (hentry.symm.trans ha)]
      exact hcompare
  | case4 lower upper hlt middle entry hentry hcompare =>
    exact ((findEntry_eq_some_iff hsorted).2 ⟨mem_of_getElem? hentry, hcompare⟩).symm
  | case5 lower upper hnot =>
    refine (findEntry_eq_none fun entry hentry heq => ?_).symm
    obtain ⟨j, hj⟩ := mem_iff_getElem?.1 hentry
    by_cases hlower : j < lower
    · cases (hbefore j entry hj hlower).symm.trans heq
    · cases (hafter j entry hj (by omega)).symm.trans heq

lemma drop_lowerBoundLoop (hsorted : SortedKeys rows)
    (hbefore : ∀ j a, rows[j]? = some a → j < lower →
      EncodedBound.below (some (encoded, inclusive)) a.1 = true)
    (hafter : ∀ j a, rows[j]? = some a → upper ≤ j →
      EncodedBound.below (some (encoded, inclusive)) a.1 = false) (hrange : lower ≤ upper)
    (hupper : upper ≤ rows.length) :
    rows.drop (RowPage.lowerBoundLoop rows encoded inclusive lower upper) =
      rows.filter fun a => !EncodedBound.below (some (encoded, inclusive)) a.1 := by
  have hcut : ∀ x, (compare x encoded = .lt ∨ (!inclusive) = true ∧ compare x encoded = .eq) ↔
      EncodedBound.below (some (encoded, inclusive)) x = true := fun x => by
    simp [EncodedBound.below]
  fun_induction RowPage.lowerBoundLoop rows encoded inclusive lower upper with
  | case1 lower upper hlt middle hnone =>
    have := getElem?_eq_none_iff.1 hnone
    omega
  | case2 lower upper hlt middle entry hentry hbelow ih =>
    refine ih (fun j a ha hj => ?_) hafter (by omega) hupper
    rcases Nat.lt_or_eq_of_le (Nat.le_of_lt_succ hj) with hj | rfl
    · exact EncodedBound.below_of_lt ((hcut _).1 hbelow) (compare_getElem hsorted ha hentry hj)
    · rw [← some.inj (hentry.symm.trans ha)]
      exact (hcut _).1 hbelow
  | case3 lower upper hlt middle entry hentry hbelow ih =>
    rw [hcut, Bool.not_eq_true] at hbelow
    refine ih hbefore (fun j a ha hj => ?_) (by omega) (by omega)
    rcases Nat.lt_or_eq_of_le hj with hj | rfl
    · by_contra habove
      rw [Bool.not_eq_false] at habove
      have := EncodedBound.below_of_lt habove (compare_getElem hsorted hentry ha hj)
      cases hbelow.symm.trans this
    · rw [← some.inj (hentry.symm.trans ha)]
      exact hbelow
  | case4 lower upper hnot =>
    exact drop_eq_filter_of_cut hbefore fun j a ha hj => hafter j a ha (by omega)

end

section

variable (page : RowPage) {entry : RowPageEntry}

lemma RowPage.lowerBound_le (h : entry ∈ page.rows) : (compare page.lowerBound entry.1).isLE :=
  page.sorted.head_isLE page.nonempty h

lemma RowPage.le_upperBound (h : entry ∈ page.rows) : (compare entry.1 page.upperBound).isLE :=
  page.sorted.isLE_getLast page.nonempty h

lemma RowPage.bounds_le : (compare page.lowerBound page.upperBound).isLE :=
  page.le_upperBound (head_mem page.nonempty)

end

section

variable {pages : List RowPage} {encoded : Bytes}

/-- Pages in ascending order of disjoint key ranges. -/
def SortedPages (pages : List RowPage) : Prop :=
  pages.Pairwise fun page later => compare page.upperBound later.lowerBound = .lt

lemma SortedPages.lt (hsorted : SortedPages pages) {page later : RowPage}
    (hi : pages[i]? = some page) (hj : pages[j]? = some later) (hij : i < j) :
    compare page.upperBound later.lowerBound = .lt := by
  obtain ⟨hi', rfl⟩ := List.getElem?_eq_some_iff.1 hi
  obtain ⟨hj', rfl⟩ := List.getElem?_eq_some_iff.1 hj
  exact pairwise_iff_getElem.1 hsorted i j hi' hj' hij

lemma SortedPages.sortedKeys (hsorted : SortedPages pages) :
    SortedKeys (pages.flatMap (·.rows)) := by
  refine pairwise_flatMap.2 ⟨fun page _ => page.sorted, hsorted.imp fun h a ha b hb => ?_⟩
  exact Std.TransCmp.lt_of_isLE_of_lt (RowPage.le_upperBound _ ha)
    (Std.TransCmp.lt_of_lt_of_isLE h (RowPage.lowerBound_le _ hb))

lemma RowTableRoot.sortedKeys_rows (root : RowTableRoot) : SortedKeys root.rows :=
  SortedPages.sortedKeys root.sorted

/-- What the page search answers with. -/
structure IsFoundPage (pages : List RowPage) (encoded : Bytes) (i : ℕ) (page : RowPage) :
    Prop where
  found : pages[i]? = some page
  before : ∀ j earlier, pages[j]? = some earlier → j < i → compare earlier.upperBound encoded = .lt
  last : compare page.upperBound encoded = .lt → i + 1 = pages.length

lemma findPageLoop_spec (hsorted : SortedPages pages)
    (hbefore : ∀ j page, pages[j]? = some page → j < lower → compare page.upperBound encoded = .lt)
    (hafter : ∀ j page, pages[j]? = some page → upper ≤ j → compare encoded page.lowerBound = .lt)
    (hcandidate : upper < pages.length → candidate = some upper)
    (hlast : upper = pages.length → lower = pages.length → candidate = some (pages.length - 1))
    (hrange : lower ≤ upper) (hupper : upper ≤ pages.length) (hne : 0 < pages.length) :
    ∃ i page, RowTableRoot.findPageLoop pages encoded lower upper candidate = some i ∧
      IsFoundPage pages encoded i page := by
  fun_induction RowTableRoot.findPageLoop pages encoded lower upper candidate with
  | case1 lower upper candidate hlt middle hnone =>
    have := getElem?_eq_none_iff.1 hnone
    omega
  | case2 lower upper candidate hlt middle page hpage hless ih =>
    refine ih (fun j earlier hearlier hj => ?_) hafter (fun hlength => ?_) (fun hlength hend => ?_)
      (by omega) hupper
    · rcases Nat.lt_or_eq_of_le (Nat.le_of_lt_succ hj) with hj | rfl
      · have := hsorted.lt hearlier hpage hj
        exact Std.TransCmp.lt_trans (Std.TransCmp.lt_of_lt_of_isLE this page.bounds_le) hless
      · rw [← some.inj (hpage.symm.trans hearlier)]
        exact hless
    · rw [dif_neg (by omega)]
      exact hcandidate hlength
    · rw [dif_pos hend, some.injEq]
      omega
  | case3 lower upper candidate hlt middle page hpage hless hlower =>
    refine ⟨middle, page, rfl, hpage, fun j earlier hearlier hj => ?_, fun h => absurd h hless⟩
    have hle : (compare page.lowerBound encoded).isLE := by
      rwa [Ordering.isLE_iff_ne_gt]
    exact Std.TransCmp.lt_of_lt_of_isLE (hsorted.lt hearlier hpage hj) hle
  | case4 lower upper candidate hlt middle page hpage hless hlower ih =>
    have hgt : compare encoded page.lowerBound = .lt := compare_gt_iff.1 (by simpa using hlower)
    refine ih hbefore (fun j later hlater hj => ?_) (fun _ => rfl) (fun hlength => ?_) (by omega)
      (by omega)
    · rcases Nat.lt_or_eq_of_le hj with hj | rfl
      · have := hsorted.lt hpage hlater hj
        exact Std.TransCmp.lt_trans hgt (Std.TransCmp.lt_of_isLE_of_lt page.bounds_le this)
      · rw [← some.inj (hpage.symm.trans hlater)]
        exact hgt
    · omega
  | case5 lower upper candidate hnot =>
    obtain rfl : lower = upper := by omega
    rcases Nat.lt_or_eq_of_le hupper with hlt | heq
    · have hpage := getElem?_eq_getElem hlt
      refine ⟨lower, _, hcandidate hlt, hpage, fun j earlier hearlier hj => hbefore j _ hearlier hj,
        fun hless => ?_⟩
      have hgt := Std.TransCmp.lt_of_lt_of_isLE (hafter lower _ hpage le_rfl) (RowPage.bounds_le _)
      exact absurd (Std.TransCmp.lt_trans hgt hless) not_compare_self_lt
    · have hlt : pages.length - 1 < pages.length := by omega
      refine ⟨_, _, hlast heq heq, getElem?_eq_getElem hlt, fun j earlier hearlier hj =>
        hbefore j _ hearlier (by omega), fun _ => by omega⟩

lemma IsFoundPage.eq_of_contains (hsorted : SortedPages pages) {page found : RowPage}
    (h : IsFoundPage pages encoded i found) (hj : pages[j]? = some page)
    (hlower : (compare page.lowerBound encoded).isLE)
    (hupper : (compare encoded page.upperBound).isLE) : i = j := by
  rcases lt_trichotomy i j with hij | hij | hij
  · have hless := Std.TransCmp.lt_of_lt_of_isLE (hsorted.lt h.found hj hij) hlower
    have := h.last hless
    have := (List.getElem?_eq_some_iff.1 hj).1
    omega
  · exact hij
  · exact (not_compare_self_lt (Std.TransCmp.lt_of_lt_of_isLE (h.before j page hj hij) hupper)).elim

lemma findPageLoop_start {root : RowTableRoot} (hne : root.pages ≠ []) :
    ∃ i page, RowTableRoot.findPageLoop root.pages encoded 0 root.pages.length none = some i ∧
      IsFoundPage root.pages encoded i page := by
  have hend : ∀ j page, root.pages[j]? = some page → root.pages.length ≤ j →
      compare encoded page.lowerBound = .lt := fun j page hj hle => by
    have := (List.getElem?_eq_some_iff.1 hj).1
    omega
  have hnone : root.pages.length < root.pages.length →
      (none : Option ℕ) = some root.pages.length := fun h => absurd h (lt_irrefl _)
  have hpos := List.length_pos_iff.2 hne
  exact findPageLoop_spec root.sorted (fun _ _ _ hj => absurd hj (Nat.not_lt_zero _)) hend hnone
    (fun _ h => by omega) (Nat.zero_le _) le_rfl hpos

lemma findTablePage_eq_ok {root : RowTableRoot}
    (h : root.findTablePage limits encoded = .ok result) : (root.pages = [] ∧ result = none) ∨
      ∃ i page, result = some i ∧ IsFoundPage root.pages encoded i page := by
  obtain ⟨-, -, h⟩ := bind_eq_ok.1 h
  split_ifs at h with hempty
  · exact .inl ⟨isEmpty_iff.1 hempty, (Except.ok.inj h).symm⟩
  have hne : root.pages ≠ [] := fun hnil => hempty (isEmpty_iff.2 hnil)
  obtain ⟨i, page, hloop, hfound⟩ := findPageLoop_start hne
  rw [hloop] at h
  exact .inr ⟨i, page, (Except.ok.inj h).symm, hfound⟩

end

end HawDB
