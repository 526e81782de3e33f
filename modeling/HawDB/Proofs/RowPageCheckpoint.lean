import HawDB.Proofs.RowPageMutation

/-!
# Checkpoints keep the visible rows

A key belongs to one page of the base, the one the page search answers with, and the pages cut the
keys into consecutive territories (`IsFoundPage.lt`). A plan repacks the rows of a territory inside
it, so the pages it leaves do not overlap.
-/

namespace HawDB

open List
open Std (LawfulEqOrd ReflCmp TransCmp)

open RowPageView RowPageMutation

/-! ### Territories -/

section

variable {pages : List RowPage} {root : RowTableRoot} {page other : RowPage} {x y : Bytes}
  {i j : ℕ} {entry : RowPageEntry}

lemma IsFoundPage.lt (hi : IsFoundPage pages x i page) (hj : IsFoundPage pages y j other)
    (hij : i < j) : compare x y = .lt := by
  have hbelow := hj.before i page hi.found hij
  have hnot : compare page.upperBound x ≠ .lt := fun h => by
    have := hi.last h
    have := (List.getElem?_eq_some_iff.1 hj.found).1
    omega
  refine TransCmp.lt_of_isLE_of_lt ?_ hbelow
  rw [Ordering.isLE_iff_ne_gt]
  exact fun h => hnot (compare_gt_iff.1 h)

/-- A key belongs to the page of the base that the page search answers with. -/
def RowTableRoot.Owns (root : RowTableRoot) (page : RowPage) (x : Bytes) : Prop :=
  ∃ i, IsFoundPage root.pages x i page

lemma RowTableRoot.Owns.mem (h : root.Owns page x) : page ∈ root.pages := by
  obtain ⟨i, hfound⟩ := h
  exact mem_of_getElem? hfound.found

lemma RowTableRoot.Owns.eq (h : root.Owns page x) (h' : root.Owns other x) : page = other := by
  obtain ⟨i, hi⟩ := h
  obtain ⟨j, hj⟩ := h'
  rcases lt_trichotomy i j with hij | rfl | hij
  · exact (not_compare_self_lt (hi.lt hj hij)).elim
  · exact Option.some.inj (hi.found.symm.trans hj.found)
  · exact (not_compare_self_lt (hj.lt hi hij)).elim

lemma exists_owner (hne : root.pages ≠ []) (x : Bytes) : ∃ page, root.Owns page x := by
  obtain ⟨i, page, -, hfound⟩ := findPageLoop_start hne
  exact ⟨page, i, hfound⟩

lemma owns_of_mem (hpage : page ∈ root.pages) (hentry : entry ∈ page.rows) :
    root.Owns page entry.1 := by
  obtain ⟨i, hi⟩ := getElem?_of_mem hpage
  refine ⟨i, hi, fun j earlier hearlier hj => ?_, fun h => ?_⟩
  · exact TransCmp.lt_of_lt_of_isLE (SortedPages.lt root.sorted hearlier hi hj)
      (RowPage.lowerBound_le _ hentry)
  · exact (not_compare_self_lt (TransCmp.lt_of_lt_of_isLE h (RowPage.le_upperBound _ hentry))).elim

lemma lowerBound_inj (hpage : page ∈ root.pages) (hother : other ∈ root.pages)
    (h : page.lowerBound = other.lowerBound) : page = other := by
  have howns : root.Owns page page.lowerBound := owns_of_mem hpage (head_mem page.nonempty)
  have hother : root.Owns other other.lowerBound := owns_of_mem hother (head_mem other.nonempty)
  exact howns.eq (h ▸ hother)

lemma pageId_inj (hpage : page ∈ root.pages) (hother : other ∈ root.pages)
    (h : page.pageId = other.pageId) : page = other :=
  inj_on_of_nodup_map root.distinctIds hpage hother h

lemma RowTableRoot.Owns.isFoundPage (h : root.Owns page x) (hi : root.pages[i]? = some page) :
    IsFoundPage root.pages x i page := by
  obtain ⟨j, hj⟩ := h
  have hself : ¬ compare page.upperBound page.lowerBound = .lt := fun h =>
    not_compare_self_lt (TransCmp.lt_of_lt_of_isLE h page.bounds_le)
  rcases lt_trichotomy i j with hij | rfl | hij
  · exact (hself (SortedPages.lt root.sorted hi hj.found hij)).elim
  · exact hj
  · exact (hself (SortedPages.lt root.sorted hj.found hi hij)).elim

lemma territories_apart (hpage : page ∈ root.pages) (hother : other ∈ root.pages)
    (hne : page ≠ other) : (∀ x y, root.Owns page x → root.Owns other y → compare x y = .lt) ∨
      ∀ x y, root.Owns page x → root.Owns other y → compare y x = .lt := by
  obtain ⟨i, hi⟩ := getElem?_of_mem hpage
  obtain ⟨j, hj⟩ := getElem?_of_mem hother
  rcases lt_trichotomy i j with hij | rfl | hij
  · exact .inl fun x y hx hy => (hx.isFoundPage hi).lt (hy.isFoundPage hj) hij
  · exact (hne (Option.some.inj (hi.symm.trans hj))).elim
  · exact .inr fun x y hx hy => (hy.isFoundPage hj).lt (hx.isFoundPage hi) hij

lemma findEntry_of_owns (h : root.Owns page x) :
    findEntry x root.rows = findEntry x page.rows := by
  ext entry
  rw [findEntry_eq_some_iff root.sortedKeys_rows, findEntry_eq_some_iff page.sorted]
  refine and_congr_left fun heq => ?_
  obtain rfl := LawfulEqOrd.eq_of_compare heq
  refine ⟨fun hentry => ?_, fun hentry => mem_flatMap.2 ⟨page, h.mem, hentry⟩⟩
  obtain ⟨owner, howner, hentry⟩ := mem_flatMap.1 hentry
  rw [h.eq (owns_of_mem howner hentry)]
  exact hentry

end

/-! ### Grouping the changes -/

section

variable {config : RowPageConfig} {table : String} {root : RowTableRoot} {page other : RowPage}
  {x : Bytes} {row : Option RelationalRow} {groups groups' : OrdMap Bytes MutationGroup}
  {done : List (Bytes × Option RelationalRow)}

def groupOf (groups : OrdMap Bytes MutationGroup) (page : RowPage) : MutationGroup :=
  (groups.get page.lowerBound).getD ⟨page, .empty⟩

/-- The changes so far are in the groups of the pages that own them. -/
structure IsGrouped (root : RowTableRoot) (done : List (Bytes × Option RelationalRow))
    (groups : OrdMap Bytes MutationGroup) : Prop where
  pages : ∀ e ∈ groups.entries, e.2.page ∈ root.pages ∧ e.1 = e.2.page.lowerBound
  changes : ∀ page ∈ root.pages, ∀ x v, (groupOf groups page).changes.get x = some v ↔
    (x, v) ∈ done ∧ root.Owns page x

lemma IsGrouped.empty (root : RowTableRoot) : IsGrouped root [] .empty where
  pages := nofun
  changes := fun _ _ _ _ => ⟨nofun, fun h => (nomatch h.1)⟩

lemma IsGrouped.groupOf_page (h : IsGrouped root done groups) (hpage : page ∈ root.pages) :
    (groupOf groups page).page = page := by
  rw [groupOf]
  rcases hget : groups.get page.lowerBound with _ | group
  · rfl
  obtain ⟨k, hmem, heq⟩ := OrdMap.get_eq_some_iff.1 hget
  obtain rfl := LawfulEqOrd.eq_of_compare heq
  obtain ⟨hgroup, hkey⟩ := h.pages _ hmem
  exact (lowerBound_inj hpage hgroup hkey).symm

lemma targetPage_spec
    (hcurrent : ∀ page, current = some page → ∃ y, root.Owns page y ∧ compare y x = .lt)
    (h : targetPage config table root current x = .ok page) : root.Owns page x := by
  rw [targetPage] at h
  rcases hfilter : current.filter fun page => (compare page.upperBound x).isGE with _ | kept
  · rw [hfilter] at h
    obtain ⟨ordinal, hordinal, h⟩ := bind_eq_ok.1 h
    rcases findTablePage_eq_ok hordinal with ⟨-, rfl⟩ | ⟨i, found, rfl, hfound⟩
    · cases h
    dsimp only at h
    rw [hfound.found] at h
    cases h
    exact ⟨i, hfound⟩
  · rw [hfilter] at h
    cases h
    obtain ⟨hcur, hge⟩ := Option.filter_eq_some_iff.1 hfilter
    obtain ⟨y, ⟨i, hfound⟩, hlt⟩ := hcurrent _ hcur
    refine ⟨i, hfound.found, fun j earlier hearlier hj =>
      TransCmp.lt_trans (hfound.before j earlier hearlier hj) hlt, fun hless => ?_⟩
    rw [hless] at hge
    cases hge

lemma groupOf_insert_self (group : MutationGroup) :
    groupOf (groups.insert page.lowerBound group) page = group := by
  rw [groupOf, OrdMap.get_insert_eq, if_pos rfl, Option.getD_some]

lemma groupOf_insert_of_ne (hpage : page ∈ root.pages) (hother : other ∈ root.pages)
    (hne : other ≠ page) (group : MutationGroup) :
    groupOf (groups.insert page.lowerBound group) other = groupOf groups other := by
  rw [groupOf, OrdMap.get_insert_eq, if_neg fun h => hne (lowerBound_inj hother hpage h), groupOf]

lemma IsGrouped.insert (h : IsGrouped root done groups) (howns : root.Owns page x)
    (hnew : ∀ e ∈ done, e.1 ≠ x) :
    IsGrouped root (done ++ [(x, row)]) (groups.insert page.lowerBound
      { groupOf groups page with changes := (groupOf groups page).changes.insert x row }) where
  pages := fun e he => by
    have hpage := h.groupOf_page howns.mem
    rcases mem_insertEntry he with rfl | he | ⟨hvalue, hkey⟩
    · exact ⟨hpage.symm ▸ howns.mem, congrArg RowPage.lowerBound hpage.symm⟩
    · exact h.pages e he
    · rw [hvalue]
      exact ⟨hpage.symm ▸ howns.mem,
        (LawfulEqOrd.eq_of_compare hkey).symm.trans (congrArg _ hpage.symm)⟩
  changes := fun other hother y v => by
    rw [mem_append, mem_singleton]
    by_cases hpage : other = page
    · subst hpage
      rw [groupOf_insert_self, OrdMap.get_insert_eq]
      by_cases hy : y = x
      · subst hy
        rw [if_pos rfl, Option.some.injEq]
        refine ⟨fun hv => ⟨.inr (hv ▸ rfl), howns⟩, fun ⟨hmem, _⟩ => ?_⟩
        rcases hmem with hmem | hmem
        · exact (hnew _ hmem rfl).elim
        · exact (Prod.mk.inj hmem).2.symm
      · rw [if_neg hy, h.changes other hother]
        refine and_congr_left fun _ => ⟨.inl, fun hmem => hmem.resolve_right fun h => ?_⟩
        exact hy (Prod.mk.inj h).1
    · rw [groupOf_insert_of_ne howns.mem hother hpage, h.changes other hother]
      refine ⟨fun ⟨hmem, ho⟩ => ⟨.inl hmem, ho⟩,
        fun ⟨hmem, ho⟩ => ⟨hmem.resolve_right fun h => ?_, ho⟩⟩
      obtain rfl := (Prod.mk.inj h).1
      exact hpage (ho.eq howns)

lemma groupChanges_spec : ∀ {changes done}
    {current : Option RowPage} {groups groups' : OrdMap Bytes MutationGroup},
    SortedKeys (done ++ changes) → IsGrouped root done groups →
      (∀ page, current = some page → ∃ y, root.Owns page y ∧ ∀ e ∈ changes, compare y e.1 = .lt) →
      groupChanges config table root changes current groups = .ok groups' →
        IsGrouped root (done ++ changes) groups'
  | [], done, _, _, _, _, hgrouped, _, h => by
    cases h
    rwa [append_nil]
  | (x, row) :: changes, done, current, groups, groups', hsorted, hgrouped, hcurrent, h => by
    obtain ⟨page, hpage, h⟩ := bind_eq_ok.1 h
    have howns := targetPage_spec (fun page hpage => by
      obtain ⟨y, hy, hlt⟩ := hcurrent page hpage
      exact ⟨y, hy, hlt _ mem_cons_self⟩) hpage
    obtain ⟨-, hrest, hcross⟩ := pairwise_append.1 hsorted
    have hnew : ∀ e ∈ done, e.1 ≠ x := fun e he heq =>
      compare_ne_eq_of_lt (hcross e he _ mem_cons_self) (heq ▸ ReflCmp.compare_self)
    rw [append_cons] at hsorted ⊢
    refine groupChanges_spec hsorted (hgrouped.insert howns hnew) (fun p hp => ?_) h
    cases hp
    exact ⟨x, howns, (pairwise_cons.1 hrest).1⟩

end

/-! ### Planning the groups -/

section

variable {config : RowPageConfig} {columnCount : ℕ} {root : RowTableRoot} {page : RowPage}
  {collected : PlannedChanges} {changed : Bool} {x : Bytes}
  {group : MutationGroup} {plan plan' : TablePlan} {done : List RowPage}

def rowBefore (rows : List RowPageEntry) (x : Bytes) : Option RelationalRow :=
  (findEntry x rows).map Prod.snd

def rowAfter (collected : PlannedChanges) (rows : List RowPageEntry) (x : Bytes) :
    Option RelationalRow :=
  (collected.get x).getD (rowBefore rows x)

lemma rowBefore_eq_some (hsorted : SortedKeys rows) :
    rowBefore rows x = some row ↔ (x, row) ∈ rows := by
  rw [rowBefore, Option.map_eq_some_iff]
  constructor
  · rintro ⟨entry, hfind, rfl⟩
    obtain ⟨hmem, heq⟩ := (findEntry_eq_some_iff hsorted).1 hfind
    rwa [← LawfulEqOrd.eq_of_compare heq]
  · exact fun hmem => ⟨_, (findEntry_eq_some_iff hsorted).2 ⟨hmem, ReflCmp.compare_self⟩, rfl⟩

def Changes (root : RowTableRoot) (collected : PlannedChanges) (page : RowPage) : Prop :=
  ∃ x, root.Owns page x ∧ ¬ SameRow (rowBefore root.rows x) (rowAfter collected root.rows x)

/-- The rows are those of the territory of a page after the changes. -/
structure IsRewritten (root : RowTableRoot) (collected : PlannedChanges) (page : RowPage)
    (rows : List RowPageEntry) : Prop where
  sorted : SortedKeys rows
  mem_iff : ∀ e, e ∈ rows ↔ root.Owns page e.1 ∧ rowAfter collected root.rows e.1 = some e.2

/-- The group has the changes of the territory of its page. -/
structure IsGroup (root : RowTableRoot) (collected : PlannedChanges) (group : MutationGroup) :
    Prop where
  page : group.page ∈ root.pages
  changes : ∀ x v, group.changes.get x = some v ↔ collected.get x = some v ∧ root.Owns group.page x

lemma IsGroup.get_of_owns (h : IsGroup root collected group) (hx : root.Owns group.page x) :
    group.changes.get x = collected.get x := by
  ext v
  rw [h.changes, and_iff_left hx]

lemma applyChanges_group (hgroup : IsGroup root collected group)
    (h : applyChanges group.page.rows group.changes = .ok (merged, changed)) :
    IsRewritten root collected group.page merged ∧
      (changed ↔ Changes root collected group.page) := by
  obtain ⟨hsorted, hvalue, hchanged⟩ := applyChanges_spec group.page.sorted h
  have hbefore : ∀ {x}, root.Owns group.page x →
      (findEntry x group.page.rows).map Prod.snd = rowBefore root.rows x := fun hx => by
    rw [rowBefore, findEntry_of_owns hx]
  have howned : ∀ {x}, root.Owns group.page x →
      rowBefore merged x = rowAfter collected root.rows x := fun hx => by
    rw [rowBefore, hvalue, hgroup.get_of_owns hx, hbefore hx, rowAfter]
  refine ⟨⟨hsorted, fun e => ?_⟩, hchanged.trans ?_⟩
  · rw [← rowBefore_eq_some hsorted]
    refine ⟨fun he => ?_, fun ⟨hx, he⟩ => by rwa [howned hx]⟩
    suffices hx : root.Owns group.page e.1 from ⟨hx, by rwa [← howned hx]⟩
    rw [rowBefore, hvalue] at he
    rcases hget : group.changes.get e.1 with _ | v
    · rw [hget] at he
      have hmem := (rowBefore_eq_some group.page.sorted).1 he
      exact owns_of_mem hgroup.page hmem
    · exact ((hgroup.changes _ _).1 hget).2
  · constructor
    · rintro ⟨e, he, hne⟩
      have hget : group.changes.get e.1 = some e.2 :=
        OrdMap.get_eq_some_iff.2 ⟨e.1, he, ReflCmp.compare_self⟩
      obtain ⟨hcollected, hx⟩ := (hgroup.changes _ _).1 hget
      refine ⟨e.1, hx, ?_⟩
      rwa [← hbefore hx, rowAfter, hcollected, Option.getD_some]
    · rintro ⟨x, hx, hne⟩
      rcases hcollected : collected.get x with _ | v
      · rw [rowAfter, hcollected] at hne
        exact (hne (sameRow_refl _)).elim
      obtain ⟨k, hmem, heq⟩ := OrdMap.get_eq_some_iff.1 ((hgroup.get_of_owns hx).trans hcollected)
      obtain rfl := LawfulEqOrd.eq_of_compare heq
      rw [rowAfter, hcollected, Option.getD_some, ← hbefore hx] at hne
      exact ⟨_, hmem, hne⟩

def PlannedPage.Apart (page other : PlannedPage) : Prop :=
  (∀ e ∈ page.rows, ∀ f ∈ other.rows, compare e.1 f.1 = .lt) ∨
    ∀ e ∈ page.rows, ∀ f ∈ other.rows, compare f.1 e.1 = .lt

lemma PlannedPage.Apart.symm {page other : PlannedPage} (h : page.Apart other) :
    other.Apart page :=
  (Or.symm h).imp (fun h f hf e he => h e he f hf) fun h f hf e he => h e he f hf

lemma TakesIds.spec {before after : Option ℕ × ℕ} (h : TakesIds before ids after)
    (hfirst : ∀ id, before.1 = some id → id < before.2) : ids.Nodup ∧ before.2 ≤ after.2 ∧
      ∀ id ∈ ids, (before.1 = some id ∨ before.2 ≤ id) ∧ id < after.2 := by
  rcases h with ⟨rfl, rfl⟩ | ⟨-, k, hk, rfl⟩
  · exact ⟨nodup_nil, le_rfl, nofun⟩
  rcases hbefore : before.1 with _ | first
  · refine ⟨nodup_range' .., by omega, fun id hid => ?_⟩
    have := mem_range'_1.1 hid
    omega
  have := hfirst first hbefore
  refine ⟨nodup_cons.2 ⟨fun hid => ?_, nodup_range' ..⟩, by omega, fun id hid => ?_⟩
  · have := mem_range'_1.1 hid
    omega
  · rcases mem_cons.1 hid with rfl | hid
    · exact ⟨.inl rfl, by omega⟩
    · have := mem_range'_1.1 hid
      exact ⟨.inr this.1, by omega⟩

lemma apart_of_sortedKeys {pages : List PlannedPage}
    (hsorted : SortedKeys (pages.flatMap (·.rows))) :
    (∀ page ∈ pages, SortedKeys page.rows) ∧ pages.Pairwise PlannedPage.Apart := by
  obtain ⟨hpages, hcross⟩ := pairwise_flatMap.1 hsorted
  exact ⟨hpages, hcross.imp .inl⟩

/-- Two pages have different ids and do not overlap. -/
def PlannedPage.Disjoint (page other : PlannedPage) : Prop :=
  page.pageId ≠ other.pageId ∧ page.Apart other

/-- What holds of a plan when the groups of some pages are done. -/
structure IsPlanned (root : RowTableRoot) (collected : PlannedChanges) (done : List RowPage)
    (plan : TablePlan) : Prop where
  le : root.nextPageId ≤ plan.nextPageId
  nonempty : ∀ dirty ∈ plan.dirtyPages, dirty.rows ≠ []
  sorted : ∀ dirty ∈ plan.dirtyPages, SortedKeys dirty.rows
  below : ∀ dirty ∈ plan.dirtyPages, dirty.pageId < plan.nextPageId
  disjoint : plan.dirtyPages.Pairwise PlannedPage.Disjoint
  /-- A dirty page lies in the territory of a page that changes, and has its id or a new one. -/
  written : ∀ dirty ∈ plan.dirtyPages, ∃ page ∈ done, Changes root collected page ∧
    (dirty.pageId = page.pageId ∨ root.nextPageId ≤ dirty.pageId) ∧
    ∀ e ∈ dirty.rows, root.Owns page e.1 ∧ rowAfter collected root.rows e.1 = some e.2
  deleted : ∀ id ∈ plan.deletedPageIds, ∃ page ∈ done, Changes root collected page ∧
    page.pageId = id
  replaced : ∀ page ∈ done, Changes root collected page → page.pageId ∈ plan.deletedPageIds ∨
    page.pageId ∈ plan.dirtyPages.map (·.pageId)
  complete : ∀ page ∈ done, Changes root collected page → ∀ e : RowPageEntry,
    root.Owns page e.1 → rowAfter collected root.rows e.1 = some e.2 →
      ∃ dirty ∈ plan.dirtyPages, e ∈ dirty.rows

lemma IsPlanned.start (root : RowTableRoot) (collected : PlannedChanges) :
    IsPlanned root collected [] (startPlan (some root)) where
  le := le_rfl
  nonempty := nofun
  sorted := nofun
  below := nofun
  disjoint := Pairwise.nil
  written := nofun
  deleted := nofun
  replaced := nofun
  complete := nofun

section

variable (h : IsPlanned root collected done plan)

include h

lemma IsPlanned.skip (hpage : ¬ Changes root collected page) :
    IsPlanned root collected (page :: done) plan :=
  { h with
    written := fun dirty hdirty =>
      exists_mem_cons_of_exists (h.written dirty hdirty)
    deleted := fun id hid =>
      exists_mem_cons_of_exists (h.deleted id hid)
    replaced := forall_mem_cons.2 ⟨fun h => absurd h hpage, h.replaced⟩
    complete := forall_mem_cons.2 ⟨fun h => absurd h hpage, h.complete⟩ }

lemma IsPlanned.delete (hpage : Changes root collected page)
    (hrows : IsRewritten root collected page []) :
    IsPlanned root collected (page :: done)
      { plan with deletedPageIds := plan.deletedPageIds ++ [page.pageId] } :=
  { h with
    written := fun dirty hdirty =>
      exists_mem_cons_of_exists (h.written dirty hdirty)
    deleted := forall_mem_append.2 ⟨fun id hid =>
      exists_mem_cons_of_exists (h.deleted id hid), by simpa using Or.inl hpage⟩
    replaced := forall_mem_cons.2 ⟨fun _ => .inl (by simp), fun p hp hchanges =>
      (h.replaced p hp hchanges).imp_left (mem_append_left _)⟩
    complete := forall_mem_cons.2 ⟨fun _ e howns hafter =>
      (nomatch (hrows.mem_iff e).2 ⟨howns, hafter⟩), h.complete⟩ }

lemma IsPlanned.write {pages : List PlannedPage}
    (hdone : ∀ p ∈ done, p ∈ root.pages) (hmem : page ∈ root.pages) (hnew : page ∉ done)
    (hpage : Changes root collected page) (hrows : IsRewritten root collected page merged)
    (hne : merged ≠ []) (hdirty : plan'.dirtyPages = plan.dirtyPages ++ pages)
    (hdeleted : plan'.deletedPageIds = plan.deletedPageIds)
    (hpages : pages.flatMap (·.rows) = merged) (hnonempty : ∀ page ∈ pages, page.rows ≠ [])
    (hids : TakesIds (some page.pageId, plan.nextPageId) (pages.map (·.pageId))
      (left, plan'.nextPageId)) : IsPlanned root collected (page :: done) plan' := by
  have hfirst := root.pageId_lt page hmem
  obtain ⟨hnodup, hle, hid⟩ := hids.spec fun id hid => by
    cases hid
    exact lt_of_lt_of_le hfirst h.le
  obtain ⟨hsorted, hapart⟩ := apart_of_sortedKeys (hpages ▸ hrows.sorted)
  have hwritten : ∀ dirty ∈ pages, ∀ e ∈ dirty.rows, e ∈ merged := fun dirty hd e he =>
    hpages ▸ mem_flatMap.2 ⟨dirty, hd, he⟩
  refine ⟨h.le.trans hle, ?_, ?_, ?_, ?_, ?_, hdeleted ▸ fun id hid => ?_, ?_, ?_⟩
  · exact hdirty ▸ forall_mem_append.2 ⟨h.nonempty, hnonempty⟩
  · exact hdirty ▸ forall_mem_append.2 ⟨h.sorted, hsorted⟩
  · exact hdirty ▸ forall_mem_append.2 ⟨fun d hd => (h.below d hd).trans_le hle,
      fun d hd => (hid _ (mem_map_of_mem hd)).2⟩
  · rw [hdirty]
    refine pairwise_append.2 ⟨h.disjoint, (pairwise_map.1 hnodup).and hapart,
      fun old hold new hmemNew => ?_⟩
    obtain ⟨p, hp, -, hpId, hpRows⟩ := h.written old hold
    have hne : p ≠ page := fun heq => hnew (heq ▸ hp)
    refine ⟨fun heq => ?_, ?_⟩
    · have hbelow := h.below old hold
      rcases (hid _ (mem_map_of_mem hmemNew)).1 with hfresh | hfresh
      · have hkept : page.pageId = new.pageId := Option.some.inj hfresh
        rcases hpId with hpId | hpId
        · exact hne (pageId_inj (hdone p hp) hmem (by omega))
        · omega
      · omega
    · have hnewRows : ∀ e ∈ new.rows, root.Owns page e.1 := fun e he =>
        ((hrows.mem_iff e).1 (hwritten new hmemNew e he)).1
      exact (territories_apart (hdone p hp) hmem hne).imp
        (fun h e he f hf => h _ _ (hpRows e he).1 (hnewRows f hf))
        fun h e he f hf => h _ _ (hpRows e he).1 (hnewRows f hf)
  · refine hdirty ▸ forall_mem_append.2 ⟨fun d hd => ?_, fun d hd => ?_⟩
    · obtain ⟨p, hp, hrest⟩ := h.written d hd
      exact ⟨p, mem_cons_of_mem _ hp, hrest⟩
    · refine ⟨page, mem_cons_self, hpage, ?_, fun e he =>
        (hrows.mem_iff e).1 (hwritten d hd e he)⟩
      exact (hid _ (mem_map_of_mem hd)).1.imp (fun h => (Option.some.inj h).symm) h.le.trans
  · obtain ⟨p, hp, hrest⟩ := h.deleted id hid
    exact ⟨p, mem_cons_of_mem _ hp, hrest⟩
  · rw [hdirty, hdeleted, map_append]
    refine forall_mem_cons.2 ⟨fun _ => .inr (mem_append_right _ ?_), fun p hp hchanges =>
      (h.replaced p hp hchanges).imp_right (mem_append_left _)⟩
    rcases hids with ⟨hnil, -⟩ | ⟨-, k, -, hcons⟩
    · exact (hne (by rw [← hpages, map_eq_nil_iff.1 hnil]; rfl)).elim
    · rw [hcons]
      exact mem_cons_self
  · rw [hdirty]
    refine forall_mem_cons.2 ⟨fun _ e howns hafter => ?_, fun p hp hchanges e howns hafter => ?_⟩
    · have he := (hrows.mem_iff e).2 ⟨howns, hafter⟩
      obtain ⟨d, hd, he⟩ := mem_flatMap.1 (hpages ▸ he)
      exact ⟨d, mem_append_right _ hd, he⟩
    · obtain ⟨d, hd, he⟩ := h.complete p hp hchanges e howns hafter
      exact ⟨d, mem_append_left _ hd, he⟩

lemma planGroup_spec (hdone : ∀ p ∈ done, p ∈ root.pages) (hgroup : IsGroup root collected group)
    (hnew : group.page ∉ done) (hplan : planGroup config columnCount group plan = .ok plan') :
    IsPlanned root collected (group.page :: done) plan' := by
  rw [planGroup] at hplan
  split_ifs at hplan
  obtain ⟨⟨merged, changed⟩, happly, hplan⟩ := bind_eq_ok.1 hplan
  obtain ⟨hrows, hchanged⟩ := applyChanges_group hgroup happly
  cases changed with
  | false =>
    cases hplan
    exact h.skip fun hchanges => nomatch hchanged.2 hchanges
  | true =>
    have hpage := hchanged.1 rfl
    cases merged with
    | nil =>
      cases hplan
      exact h.delete hpage hrows
    | cons e rows =>
      obtain ⟨pages, left, hdirty, hdeleted, hpages, hnonempty, hids⟩ := packInto_eq_ok hplan
      exact h.write hdone hgroup.page hnew hpage hrows (cons_ne_nil _ _) hdirty hdeleted
        hpages hnonempty hids

end

lemma planGroups_spec : ∀ {groups} {done : List RowPage}
    {plan plan' : TablePlan}, IsPlanned root collected done plan →
      (∀ p ∈ done, p ∈ root.pages) → (∀ group ∈ groups, IsGroup root collected group) →
      (groups.map (·.page)).Nodup → (∀ group ∈ groups, group.page ∉ done) →
      planGroups config columnCount groups plan = .ok plan' →
        IsPlanned root collected ((groups.map (·.page)).reverse ++ done) plan'
  | [], _, _, _, h, _, _, _, _, hplan => by
    cases hplan
    exact h
  | group :: groups, done, plan, plan', h, hdone, hgroups, hnodup, hnew, hplan => by
    obtain ⟨middle, hmiddle, hplan⟩ := bind_eq_ok.1 hplan
    obtain ⟨hgroup, hgroups⟩ := forall_mem_cons.1 hgroups
    obtain ⟨hfirst, hnew⟩ := forall_mem_cons.1 hnew
    obtain ⟨hnot, hnodup⟩ := nodup_cons.1 hnodup
    have hstep := planGroup_spec h hdone hgroup hfirst hmiddle
    have := planGroups_spec hstep (forall_mem_cons.2 ⟨hgroup.page, hdone⟩) hgroups hnodup
      (fun g hg hmem => ?_) hplan
    · simpa using this
    · rcases mem_cons.1 hmem with heq | hmem
      · exact hnot (mem_map.2 ⟨g, hg, heq⟩)
      · exact hnew g hg hmem

lemma IsGrouped.exists_group {groups : OrdMap Bytes MutationGroup}
    (h : IsGrouped root collected.entries groups) (hpage : page ∈ root.pages)
    (hchanges : Changes root collected page) :
    page ∈ (groups.entries.map Prod.snd).map (·.page) := by
  obtain ⟨x, howns, hne⟩ := hchanges
  rcases hget : collected.get x with _ | v
  · rw [rowAfter, hget] at hne
    exact (hne (sameRow_refl _)).elim
  obtain ⟨k, hmem, heq⟩ := OrdMap.get_eq_some_iff.1 hget
  obtain rfl := LawfulEqOrd.eq_of_compare heq
  have hchange := (h.changes page hpage k v).2 ⟨hmem, howns⟩
  have hgroup := h.groupOf_page hpage
  rw [groupOf] at hchange hgroup
  rcases hfind : groups.get page.lowerBound with _ | group
  · rw [hfind] at hchange
    cases hchange
  · rw [hfind, Option.getD_some] at hgroup
    obtain ⟨key, hentry, -⟩ := OrdMap.get_eq_some_iff.1 hfind
    exact mem_map.2 ⟨group, mem_map.2 ⟨_, hentry, rfl⟩, hgroup⟩

lemma IsGrouped.isGroup {groups : OrdMap Bytes MutationGroup}
    (h : IsGrouped root collected.entries groups) :
    ∀ group ∈ groups.entries.map Prod.snd, IsGroup root collected group := by
  intro group hgroup
  obtain ⟨⟨k, group⟩, hmem, rfl⟩ := mem_map.1 hgroup
  obtain ⟨hpage, hkey⟩ := h.pages _ hmem
  obtain rfl : k = group.page.lowerBound := hkey
  refine ⟨hpage, fun x v => ?_⟩
  have hget : groups.get group.page.lowerBound = some group :=
    OrdMap.get_eq_some_iff.2 ⟨_, hmem, ReflCmp.compare_self⟩
  have hchanges := h.changes group.page hpage x v
  rw [groupOf, hget, Option.getD_some] at hchanges
  rw [hchanges, OrdMap.get_eq_some_iff]
  refine and_congr_left fun _ => ⟨fun hx => ⟨x, hx, ReflCmp.compare_self⟩, ?_⟩
  rintro ⟨k, hk, heq⟩
  rwa [← LawfulEqOrd.eq_of_compare heq]

lemma IsGrouped.nodup {groups : OrdMap Bytes MutationGroup} {done}
    (h : IsGrouped root done groups) : ((groups.entries.map Prod.snd).map (·.page)).Nodup := by
  rw [map_map]
  refine pairwise_map.2 (groups.sorted.imp_of_mem fun {a b} ha hb hlt heq => ?_)
  rw [(h.pages a ha).2, (h.pages b hb).2, show a.2.page = b.2.page from heq] at hlt
  exact not_compare_self_lt hlt

end

/-! ### The pages after a plan -/

section

variable {config : RowPageConfig} {table : String} {columnCount : ℕ} {base : Option RowTableRoot}
  {root : RowTableRoot} {collected : PlannedChanges} {plan plan' : TablePlan}

def RowPage.planned (page : RowPage) : PlannedPage := ⟨page.pageId, page.columnCount, page.rows⟩

def basePages (base : Option RowTableRoot) : List RowPage := (base.map (·.pages)).getD []

def baseRows (base : Option RowTableRoot) : List RowPageEntry := (base.map (·.rows)).getD []

def pagesAfter (base : Option RowTableRoot) (plan : TablePlan) : List PlannedPage :=
  ((basePages base).filter fun page => page.pageId ∉ plan.deletedPageIds ∧
    page.pageId ∉ plan.dirtyPages.map (·.pageId)).map RowPage.planned ++ plan.dirtyPages

/-- The pages after a plan hold the rows of the base overridden by the changes. -/
structure IsCheckpointed (base : Option RowTableRoot) (collected : PlannedChanges)
    (plan : TablePlan) : Prop where
  nonempty : ∀ page ∈ pagesAfter base plan, page.rows ≠ []
  sorted : ∀ page ∈ pagesAfter base plan, SortedKeys page.rows
  disjoint : (pagesAfter base plan).Pairwise PlannedPage.Disjoint
  below : ∀ page ∈ pagesAfter base plan, page.pageId < plan.nextPageId
  sound : ∀ page ∈ pagesAfter base plan, ∀ e ∈ page.rows,
    SameRow (some e.2) (rowAfter collected (baseRows base) e.1)
  complete : ∀ x row, rowAfter collected (baseRows base) x = some row →
    ∃ page ∈ pagesAfter base plan, ∃ e ∈ page.rows, e.1 = x ∧ compare e.2 row = .eq
  /-- A page with the id of a page of the base has only keys that belong to it. -/
  owned : ∀ root, base = some root → ∀ page ∈ root.pages, ∀ after ∈ pagesAfter base plan,
    after.pageId = page.pageId → ∀ e ∈ after.rows, root.Owns page e.1
  untouched : ∀ root, base = some root → ∀ page ∈ root.pages, ¬ Changes root collected page →
    page.pageId ∉ plan.deletedPageIds ∧ page.pageId ∉ plan.dirtyPages.map (·.pageId)

lemma mem_pagesAfter : page ∈ pagesAfter base plan ↔
    (∃ p ∈ basePages base, (p.pageId ∉ plan.deletedPageIds ∧
      p.pageId ∉ plan.dirtyPages.map (·.pageId)) ∧ p.planned = page) ∨ page ∈ plan.dirtyPages := by
  simp only [pagesAfter, mem_append, mem_map, mem_filter, decide_eq_true_eq, and_assoc]

section

variable (h : IsPlanned root collected done plan)
  (hdone : ∀ page ∈ done, page ∈ root.pages)
  (hcovers : ∀ page ∈ root.pages, Changes root collected page → page ∈ done)

include h hdone hcovers

lemma left_iff {page : RowPage} (hpage : page ∈ root.pages) :
    (page.pageId ∉ plan.deletedPageIds ∧ page.pageId ∉ plan.dirtyPages.map (·.pageId)) ↔
      ¬ Changes root collected page := by
  constructor
  · rintro ⟨hdeleted, hdirty⟩ hchanges
    exact (h.replaced page (hcovers page hpage hchanges) hchanges).elim hdeleted hdirty
  · refine fun hnot => ⟨fun hid => ?_, fun hid => ?_⟩
    · obtain ⟨p, hp, hchanges, heq⟩ := h.deleted _ hid
      exact hnot (pageId_inj (hdone p hp) hpage heq ▸ hchanges)
    · obtain ⟨dirty, hdirty, heq⟩ := mem_map.1 hid
      obtain ⟨p, hp, hchanges, hkept | hfresh, -⟩ := h.written dirty hdirty
      · exact hnot (pageId_inj (hdone p hp) hpage (hkept.symm.trans heq) ▸ hchanges)
      · have := root.pageId_lt page hpage
        have heq : dirty.pageId = page.pageId := heq
        omega

lemma mem_pagesAfter_iff : page ∈ pagesAfter (some root) plan ↔
    (∃ p ∈ root.pages, ¬ Changes root collected p ∧ p.planned = page) ∨ page ∈ plan.dirtyPages := by
  rw [mem_pagesAfter]
  refine or_congr_left (exists_congr fun p => and_congr_right fun hp => and_congr_left fun _ => ?_)
  exact left_iff h hdone hcovers hp

lemma disjoint_pagesAfter : (pagesAfter (some root) plan).Pairwise PlannedPage.Disjoint := by
  refine pairwise_append.2 ⟨pairwise_map.2 (Pairwise.filter _ ?_), h.disjoint,
    fun left hleft dirty hdirty => ?_⟩
  · refine ((pairwise_map.1 root.distinctIds).and root.sorted).imp fun ⟨hids, hlt⟩ =>
      ⟨hids, .inl fun e he f hf => ?_⟩
    exact TransCmp.lt_of_isLE_of_lt (RowPage.le_upperBound _ he)
      (TransCmp.lt_of_lt_of_isLE hlt (RowPage.lowerBound_le _ hf))
  · obtain ⟨page, hpage, rfl⟩ := mem_map.1 hleft
    obtain ⟨hpage, hkept⟩ := mem_filter.1 hpage
    have hnot := of_decide_eq_true hkept
    obtain ⟨p, hp, hchanges, -, hrows⟩ := h.written dirty hdirty
    have hne : page ≠ p := by
      rintro rfl
      exact (left_iff h hdone hcovers hpage).1 hnot hchanges
    refine ⟨fun heq => hnot.2 (mem_map.2 ⟨dirty, hdirty, heq.symm⟩), ?_⟩
    exact (territories_apart hpage (hdone p hp) hne).imp
      (fun h e he f hf => h _ _ (owns_of_mem hpage he) (hrows f hf).1)
      fun h e he f hf => h _ _ (owns_of_mem hpage he) (hrows f hf).1

lemma IsPlanned.isCheckpointed (hne : root.pages ≠ []) :
    IsCheckpointed (some root) collected plan where
  nonempty := fun page hpage => by
    rcases (mem_pagesAfter_iff h hdone hcovers).1 hpage with ⟨p, -, -, rfl⟩ | hdirty
    · exact p.nonempty
    · exact h.nonempty page hdirty
  sorted := fun page hpage => by
    rcases (mem_pagesAfter_iff h hdone hcovers).1 hpage with ⟨p, -, -, rfl⟩ | hdirty
    · exact p.sorted
    · exact h.sorted page hdirty
  disjoint := disjoint_pagesAfter h hdone hcovers
  below := fun page hpage => by
    rcases (mem_pagesAfter_iff h hdone hcovers).1 hpage with ⟨p, hp, -, rfl⟩ | hdirty
    · exact (root.pageId_lt p hp).trans_le h.le
    · exact h.below page hdirty
  sound := fun page hpage e he => by
    rcases (mem_pagesAfter_iff h hdone hcovers).1 hpage with ⟨p, hp, hnot, rfl⟩ | hdirty
    · have hbefore : rowBefore root.rows e.1 = some e.2 :=
        (rowBefore_eq_some root.sortedKeys_rows).2 (mem_flatMap.2 ⟨p, hp, he⟩)
      rw [← hbefore]
      exact not_not.1 fun hne => hnot ⟨e.1, owns_of_mem hp he, hne⟩
    · obtain ⟨p, -, -, -, hrows⟩ := h.written page hdirty
      have hafter : rowAfter collected (baseRows (some root)) e.1 = some e.2 := (hrows e he).2
      rw [hafter]
      exact sameRow_refl _
  complete := fun x row hrow => by
    obtain ⟨page, howns⟩ := exists_owner hne x
    by_cases hchanges : Changes root collected page
    · obtain ⟨dirty, hdirty, he⟩ :=
        h.complete page (hcovers page howns.mem hchanges) hchanges (x, row) howns hrow
      exact ⟨dirty, (mem_pagesAfter_iff h hdone hcovers).2 (.inr hdirty), _, he, rfl,
        ReflCmp.compare_self⟩
    · have hsame := not_not.1 fun hne => hchanges ⟨x, howns, hne⟩
      rw [show rowAfter collected root.rows x = some row from hrow] at hsame
      rcases hbefore : rowBefore root.rows x with _ | old
      · rw [hbefore] at hsame
        cases hsame
      rw [hbefore] at hsame
      have heq : compare old row = .eq := by cases hsame; assumption
      refine ⟨page.planned, (mem_pagesAfter_iff h hdone hcovers).2
        (.inl ⟨page, howns.mem, hchanges, rfl⟩), (x, old), ?_, rfl, heq⟩
      rw [rowBefore, findEntry_of_owns howns] at hbefore
      exact (rowBefore_eq_some page.sorted).1 hbefore
  owned := fun root' hroot page hpage after hafter heq e he => by
    cases hroot
    rcases (mem_pagesAfter_iff h hdone hcovers).1 hafter with ⟨p, hp, -, rfl⟩ | hdirty
    · rw [← pageId_inj hp hpage heq]
      exact owns_of_mem hp he
    obtain ⟨p, hp, -, hkept | hfresh, hrows⟩ := h.written after hdirty
    · rw [← pageId_inj (hdone p hp) hpage (hkept.symm.trans heq)]
      exact (hrows e he).1
    · have := root.pageId_lt page hpage
      omega
  untouched := fun root' hroot page hpage hnot => by
    cases hroot
    exact (left_iff h hdone hcovers hpage).2 hnot

end

lemma IsCheckpointed.perm {dirtyPages : List PlannedPage}
    (h : IsCheckpointed base collected plan) (hperm : dirtyPages.Perm plan.dirtyPages) :
    IsCheckpointed base collected { plan with dirtyPages } := by
  have hids : ∀ id, id ∈ dirtyPages.map (·.pageId) ↔ id ∈ plan.dirtyPages.map (·.pageId) :=
    fun id => (hperm.map _).mem_iff
  have hpages : (pagesAfter base { plan with dirtyPages }).Perm (pagesAfter base plan) := by
    simp only [pagesAfter, hids]
    exact hperm.append_left _
  exact
    { nonempty := fun page hpage => h.nonempty page (hpages.mem_iff.1 hpage)
      sorted := fun page hpage => h.sorted page (hpages.mem_iff.1 hpage)
      disjoint := (hpages.pairwise_iff fun hd => ⟨hd.1.symm, hd.2.symm⟩).2 h.disjoint
      below := fun page hpage => h.below page (hpages.mem_iff.1 hpage)
      sound := fun page hpage => h.sound page (hpages.mem_iff.1 hpage)
      complete := fun x row hrow => by
        obtain ⟨page, hpage, hrest⟩ := h.complete x row hrow
        exact ⟨page, hpages.mem_iff.2 hpage, hrest⟩
      owned := fun root hroot page hpage after hafter =>
        h.owned root hroot page hpage after (hpages.mem_iff.1 hafter)
      untouched := fun root hroot page hpage hnot =>
        (h.untouched root hroot page hpage hnot).imp_right fun hdirty hid =>
          hdirty ((hids page.pageId).1 hid) }

lemma isCheckpointed_bootstrap {pages : List PlannedPage} (hbase : basePages base = [])
    (hsorted : SortedKeys merged) (hvalue : ∀ x, rowBefore merged x = rowAfter collected [] x)
    (hdirty : plan.dirtyPages = pages) (hpages : pages.flatMap (·.rows) = merged)
    (hnonempty : ∀ page ∈ pages, page.rows ≠ [])
    (hids : TakesIds (none, (startPlan base).nextPageId) (pages.map (·.pageId))
      (left, plan.nextPageId)) : IsCheckpointed base collected plan := by
  have hafter : pagesAfter base plan = pages := by
    rw [pagesAfter, hbase, hdirty]
    rfl
  have hrows : baseRows base = [] := by
    cases base with
    | none => rfl
    | some root =>
      have hbase : root.pages = [] := hbase
      rw [baseRows, Option.map_some, Option.getD_some, RowTableRoot.rows, hbase, flatMap_nil]
  have hnone : ∀ root, base = some root → ∀ page, page ∉ root.pages := by
    rintro root rfl page hpage
    have hbase : root.pages = [] := hbase
    rw [hbase] at hpage
    cases hpage
  obtain ⟨hnodup, -, hid⟩ := hids.spec fun _ h => by cases h
  obtain ⟨hpagesSorted, hapart⟩ := apart_of_sortedKeys (hpages ▸ hsorted)
  refine ⟨?_, ?_, ?_, ?_, ?_, ?_, fun root hroot page hpage => (hnone root hroot page hpage).elim,
    fun root hroot page hpage => (hnone root hroot page hpage).elim⟩
  all_goals rw [hafter]
  · exact hnonempty
  · exact hpagesSorted
  · exact (pairwise_map.1 hnodup).and hapart
  · exact fun page hpage => (hid _ (mem_map_of_mem hpage)).2
  · intro page hpage e he
    have hmem : (e.1, e.2) ∈ merged := hpages ▸ mem_flatMap.2 ⟨page, hpage, he⟩
    rw [hrows, ← hvalue, (rowBefore_eq_some hsorted).2 hmem]
    exact sameRow_refl _
  · intro x row hrow
    rw [hrows, ← hvalue, rowBefore_eq_some hsorted, ← hpages] at hrow
    obtain ⟨page, hpage, he⟩ := mem_flatMap.1 hrow
    exact ⟨page, hpage, _, he, rfl, ReflCmp.compare_self⟩

lemma planChanges_spec (h : planChanges config base table columnCount collected = .ok plan) :
    IsCheckpointed base collected plan := by
  rw [planChanges] at h
  rcases hfilter : base.filter (!·.pages.isEmpty) with _ | root
  · rw [hfilter] at h
    have hbase : basePages base = [] := by
      cases base with
      | none => rfl
      | some root => simpa [basePages, Option.filter] using hfilter
    dsimp only at h
    split_ifs at h with hempty
    · cases h
      refine isCheckpointed_bootstrap hbase Pairwise.nil (fun x => ?_) rfl rfl
        (fun _ h => by cases h) (.inl ⟨rfl, rfl⟩)
      rw [rowAfter, OrdMap.get, isEmpty_iff.1 hempty]
      rfl
    · obtain ⟨⟨merged, changed⟩, happly, h⟩ := bind_eq_ok.1 h
      obtain ⟨hsorted, hvalue, -⟩ := applyChanges_spec Pairwise.nil happly
      obtain ⟨pages, left, hdirty, -, hpages, hnonempty, hids⟩ := packInto_eq_ok h
      exact isCheckpointed_bootstrap hbase hsorted hvalue hdirty hpages hnonempty hids
  · rw [hfilter] at h
    obtain ⟨rfl, hnonempty⟩ := Option.filter_eq_some_iff.1 hfilter
    have hne : root.pages ≠ [] := fun hnil => by
      rw [hnil] at hnonempty
      cases hnonempty
    obtain ⟨groups, hgroups, h⟩ := bind_eq_ok.1 h
    have hgrouped : IsGrouped root ([] ++ collected.entries) groups :=
      groupChanges_spec collected.sorted (.empty root) (by rintro _ ⟨⟩) hgroups
    have hplanned := planGroups_spec (IsPlanned.start root collected) (fun _ h => by cases h)
      hgrouped.isGroup hgrouped.nodup (fun _ _ h => by cases h) h
    have hmem : ∀ page ∈ ((groups.entries.map Prod.snd).map (·.page)).reverse ++ [],
        page ∈ root.pages := fun page hpage => by
      rw [append_nil, mem_reverse] at hpage
      obtain ⟨group, hgroup, rfl⟩ := mem_map.1 hpage
      exact (hgrouped.isGroup group hgroup).page
    refine hplanned.isCheckpointed hmem (fun page hpage hchanges => ?_) hne
    rw [append_nil, mem_reverse]
    exact hgrouped.exists_group hpage hchanges

lemma planTable_spec {changes : List RelationalRowChange}
    (h : planTable config base table columnCount changes = .ok plan) :
    ∃ collected, collectChanges config table changes .empty = .ok collected ∧
      IsCheckpointed base collected plan := by
  rw [planTable] at h
  split_ifs at h
  obtain ⟨collected, hcollected, planned, hplanned, h⟩ := bind₂_eq_ok.1 h
  cases h
  exact ⟨collected, hcollected, (planChanges_spec hplanned).perm (mergeSort_perm _ _)⟩

end

/-! ### Checkpoints of a view -/

section

variable {view : RowPageView} {config : RowPageConfig} {table : String} {columnCount : ℕ}
  {captured : List RelationalRowChange} {collected : PlannedChanges} {plan : TablePlan}
  {key : RelationalKey} {x : Bytes}

lemma baseRow_eq_rowBefore (hkey : encodeOrderedRelationalKey key = .ok x) :
    view.baseRow table key = rowBefore (baseRows (view.base.get table)) x := by
  rcases hroot : view.base.get table with _ | root
  · rw [RowPageView.baseRow, hroot]
    rfl
  · exact baseRow_eq hroot hkey

/-- The pages of a table after a plan hold its visible rows. -/
structure KeepsRows (view : RowPageView) (table : String) (plan : TablePlan) : Prop where
  nonempty : ∀ page ∈ pagesAfter (view.base.get table) plan, page.rows ≠ []
  sorted : ∀ page ∈ pagesAfter (view.base.get table) plan, SortedKeys page.rows
  disjoint : (pagesAfter (view.base.get table) plan).Pairwise PlannedPage.Disjoint
  below : ∀ page ∈ pagesAfter (view.base.get table) plan, page.pageId < plan.nextPageId
  sound : ∀ page ∈ pagesAfter (view.base.get table) plan, ∀ e ∈ page.rows, ∃ key row,
    encodeOrderedRelationalKey key = .ok e.1 ∧ view.visibleRow table key = some row ∧
      compare e.2 row = .eq
  complete : ∀ key row, view.visibleRow table key = some row →
    ∃ page ∈ pagesAfter (view.base.get table) plan, ∃ e ∈ page.rows,
      encodeOrderedRelationalKey key = .ok e.1 ∧ compare e.2 row = .eq
  /-- The rows of a page of the base do not get the id of another. -/
  keepsIds : ∀ root, view.base.get table = some root → ∀ page ∈ root.pages,
    ∀ other ∈ root.pages, ∀ after ∈ pagesAfter (view.base.get table) plan,
      after.pageId = page.pageId → ∀ e ∈ after.rows, ∀ f ∈ other.rows, e.1 = f.1 → other = page
  /-- A page without a changed row is neither written nor deleted. -/
  untouched : ∀ root, view.base.get table = some root → ∀ page ∈ root.pages,
    (∀ key x, encodeOrderedRelationalKey key = .ok x → root.Owns page x →
      SameRow (view.baseRow table key) (view.visibleRow table key)) →
        page.pageId ∉ plan.deletedPageIds ∧ page.pageId ∉ plan.dirtyPages.map (·.pageId) ∧
          page.planned ∈ pagesAfter (view.base.get table) plan

/-- A checkpoint keeps the visible rows: if the capture of a view and the plan of a table succeed,
the pages that the plan leaves are not empty, do not overlap, have distinct ids, and hold the
visible rows of the table; a page without a changed row is neither written again nor deleted. -/
theorem checkpoint_keeps_rows (hcapture : view.checkpointCapture = .ok captured)
    (hplan : planTable config (view.base.get table) table columnCount
      (captured.filter (·.table = table)) = .ok plan) : KeepsRows view table plan := by
  obtain ⟨collected, hcollect, hpages⟩ := planTable_spec hplan
  have hvisible : ∀ {key x}, encodeOrderedRelationalKey key = .ok x →
      view.visibleRow table key = rowAfter collected (baseRows (view.base.get table)) x := by
    intro key x hkey
    rw [visibleRow_eq hcapture hcollect hkey, baseRow_eq_rowBefore hkey, rowAfter]
  have hexists : ∀ {x row}, rowAfter collected (baseRows (view.base.get table)) x = some row →
      ∃ key, encodeOrderedRelationalKey key = .ok x := by
    intro x row hrow
    rcases hget : collected.get x with _ | v
    · rcases hroot : view.base.get table with _ | root
      · rw [rowAfter, hget, hroot] at hrow
        cases hrow
      · rw [rowAfter, hget, hroot] at hrow
        have hmem := (rowBefore_eq_some root.sortedKeys_rows).1 hrow
        obtain ⟨key, -, hkey⟩ := isKeyBytes_of_mem_rows hmem
        exact ⟨key, hkey⟩
    · exact exists_key_of_collected hcollect hget
  refine ⟨hpages.nonempty, hpages.sorted, hpages.disjoint, hpages.below, fun page hpage e he => ?_,
    fun key row hrow => ?_, fun root hroot page hpage other hother after hafter heq e he f hf hef => ?_,
    fun root hroot page hpage hsame => ?_⟩
  · have hsound := hpages.sound page hpage e he
    rcases hrow : rowAfter collected (baseRows (view.base.get table)) e.1 with _ | row
    · rw [hrow] at hsound
      cases hsound
    · rw [hrow] at hsound
      obtain ⟨key, hkey⟩ := hexists hrow
      exact ⟨key, row, hkey, (hvisible hkey).trans hrow, by cases hsound; assumption⟩
  · obtain ⟨x, hkey⟩ := encode_of_visibleRow hcapture hcollect hrow
    obtain ⟨page, hpage, e, he, rfl, heq⟩ := hpages.complete x row ((hvisible hkey).symm.trans hrow)
    exact ⟨page, hpage, e, he, hkey, heq⟩
  · exact (owns_of_mem hother hf).eq (hef ▸ hpages.owned root hroot page hpage after hafter heq e he)
  · suffices hnot : ¬ Changes root collected page by
      have hleft := hpages.untouched root hroot page hpage hnot
      refine ⟨hleft.1, hleft.2, mem_pagesAfter.2 (.inl ⟨page, ?_, hleft, rfl⟩)⟩
      rw [hroot]
      exact hpage
    rintro ⟨x, howns, hne⟩
    -- a changed key is the encoding of a key, since one of its rows is not missing
    have hkey : ∃ key, encodeOrderedRelationalKey key = .ok x := by
      rcases hrow : rowAfter collected root.rows x with _ | row
      · rcases hbefore : rowBefore root.rows x with _ | row
        · rw [hrow, hbefore] at hne
          exact (hne .none).elim
        · obtain ⟨key, -, hkey⟩ :=
            isKeyBytes_of_mem_rows ((rowBefore_eq_some root.sortedKeys_rows).1 hbefore)
          exact ⟨key, hkey⟩
      · have hrows : baseRows (view.base.get table) = root.rows := by
          rw [hroot]
          rfl
        exact hexists (hrows ▸ hrow)
    obtain ⟨key, hkey⟩ := hkey
    have := hsame key x hkey howns
    rw [baseRow_eq_rowBefore hkey, hvisible hkey, hroot] at this
    exact hne this

/-- A view whose live batch adds a row after the page. -/
def growingView : RowPageView where
  limits := ⟨100, 10⟩
  base := OrdMap.empty.insert "t" integerRoot
  baseCommitEpoch := 0
  delta := none
  live := [⟨1, [⟨"t", [.bigInt 3], some [.bigInt 30]⟩], pairwise_singleton _ _⟩]
  visibleCommitEpoch := 1
  deltaOpened := deletingView.deltaOpened
  liveEpochs := pairwise_singleton _ _
  liveFloor := by simp

/-- Two rows fit in a page. -/
def pairConfig : RowPageConfig :=
  ⟨⟨100, 10⟩, 10, 10, 2, 100, 4096, 10, 4096, fun _ _ => some 10, fun _ => .ok 200⟩

theorem checkpoint_keeps_rows_growing : ∃ captured plan,
    growingView.checkpointCapture = .ok captured ∧
    planTable pairConfig (growingView.base.get "t") "t" 1 (captured.filter (·.table = "t")) =
      .ok plan ∧
    plan.nextPageId = 3 ∧ KeepsRows growingView "t" plan := by
  have hrun : ((growingView.checkpointCapture.bind fun captured =>
      planTable pairConfig (growingView.base.get "t") "t" 1
        (captured.filter (·.table = "t"))).map (·.nextPageId)).toOption = some 3 := by
    decide +kernel
  obtain ⟨plan, hrun, hnext⟩ := map_eq_ok.1 (toOption_eq_some_iff.1 hrun)
  obtain ⟨captured, hcapture, hplan⟩ := bind_eq_ok.1 hrun
  exact ⟨captured, plan, hcapture, hplan, hnext, checkpoint_keeps_rows hcapture hplan⟩

end

end HawDB
