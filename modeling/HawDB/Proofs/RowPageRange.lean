import HawDB.Proofs.RowPageRead

/-!
# Range reads of a row-page view

A range read that succeeds has run the overlay to its end, and its rows are the merge of the rows of
the base inside the bounds with the rows of the overlay (`readPages_spec`).
-/

namespace HawDB

open List EncodedBound
open Std (LawfulEqOrd OrientedCmp ReflOrd TransCmp TransOrd)

/-! ### The overlay, one row at a time -/

section

open StreamingOverlayCursor

variable {K V : Type*} [Ord K] {cursor next : StreamingOverlayCursor K V}

omit [Ord K] in
lemma initialized_ensureInitialized (h : cursor.ensureInitialized = .ok next) :
    next.initialized = true := by
  have hloop : ∀ {sources} {cursor next : StreamingOverlayCursor K V},
      initializeLoop sources cursor = .ok next → next.initialized = cursor.initialized := by
    intro sources
    induction sources with
    | nil => exact fun h => by rw [Except.ok.inj h]
    | cons source sources ih =>
      intro cursor next h
      obtain ⟨advanced, hadvanced, h⟩ := bind_eq_ok.1 h
      rw [ih h, (sameFrame_advanceSource hadvanced).initialized]
  rw [ensureInitialized] at h
  split_ifs at h with hready
  · rwa [← Except.ok.inj h]
  · rw [hloop h]

lemma compare_selectNewest [TransOrd K] {selected newest : StreamingOverlayHead K V}
    (h : cursor.selectNewest selected = .ok (next, newest)) :
    compare newest.key selected.key = .eq := by
  fun_induction selectNewest cursor selected with
  | case1 | case5 =>
    cases h
    exact ReflOrd.compare_self
  | case2 | case3 => cases h
  | case4 cursor selected candidate heap hpop hkey hepoch advanced hadvance ih =>
    have := ih h
    split_ifs at this
    · exact TransCmp.eq_trans this hkey
    · exact this

variable {key : Option K} {rows : List (K × V)}

lemma peekKey_spec [TransOrd K] (h : cursor.peekKey = .ok (key, next)) :
    cursor.collect = next.collect ∧ (key = none → next.collect = .ok []) ∧
      ∀ k, key = some k → ∀ rows, next.collect = .ok rows →
        ∃ row rest, rows = row :: rest ∧ compare row.1 k = .eq := by
  obtain ⟨ready, hready, h⟩ := bind_eq_ok.1 h
  obtain ⟨rfl, rfl⟩ := Prod.mk.inj (Except.ok.inj h)
  have hinit := initialized_ensureInitialized hready
  have hself : ready.ensureInitialized = .ok ready := by rw [ensureInitialized, if_pos hinit]
  refine ⟨collect_of_ensureInitialized hready hinit, fun hnone => ?_, fun k hk rows hrows => ?_⟩
  · have hpop := popGreatest_eq_none.1 (Option.map_eq_none_iff.1 hnone)
    rw [collect_eq, nextProjected_eq_ok_none.2 ⟨hself, hpop⟩, ok_bind]
  · obtain ⟨⟨selected, heap⟩, hpop, rfl⟩ := Option.map_eq_some_iff.1 hk
    rw [collect_eq] at hrows
    obtain ⟨⟨_ | row, final⟩, hfirst, hrows⟩ := bind_eq_ok.1 hrows
    · obtain ⟨hready', hheap⟩ := nextProjected_eq_ok_none.1 hfirst
      obtain rfl := Except.ok.inj (hself.symm.trans hready')
      rw [hheap] at hpop
      cases hpop
    · obtain ⟨ready', selected', heap', advanced, newest, hready', hpop', hselect, -, rfl⟩ :=
        nextProjected_eq_ok_some.1 hfirst
      obtain rfl := Except.ok.inj (hself.symm.trans hready')
      cases hpop.symm.trans hpop'
      obtain ⟨rest, -, rfl⟩ := map_eq_ok.1 hrows
      exact ⟨_, rest, rfl, compare_selectNewest hselect⟩

lemma collect_of_nextProjected (h : cursor.nextProjected = .ok (some row, next)) :
    cursor.collect = next.collect.map (row :: ·) := by
  rw [collect_eq, h, ok_bind]

end

section

open RowPageView

variable {overlay next : OverlayCursor}
  {rest : List (RelationalKey × Option ProjectedRow)} {key : RelationalKey}

lemma emitOverlayBefore_spec (h : emitOverlayBefore overlay key = .ok (emitted, next))
    (hrest : next.collect = .ok rest) :
    ∃ before, overlay.collect = .ok (before ++ rest) ∧
      emitted = before.filterMap emitOverlayRow ∧ (∀ e ∈ before, compare e.1 key = .lt) ∧
      ∀ e ∈ rest.head?, compare e.1 key ≠ .lt := by
  fun_induction emitOverlayBefore overlay key generalizing emitted next with
  | case1 => nomatch h
  | case2 overlay peeked hpeek =>
    cases h
    obtain ⟨hcollect, hnone, -⟩ := peekKey_spec hpeek
    cases hrest.symm.trans (hnone rfl)
    exact ⟨[], hcollect.trans hrest, rfl, nofun, nofun⟩
  | case3 | case4 => nomatch h
  | case5 overlay first peeked hpeek hlt row advanced hnext ih =>
    obtain ⟨⟨rows, final⟩, hrows, h⟩ := map_eq_ok.1 h
    cases h
    obtain ⟨before, hcollect, rfl, hbefore, hhead⟩ := ih hrows hrest
    obtain ⟨hpeeked, -, hfirst⟩ := peekKey_spec hpeek
    have hall : peeked.collect = .ok (row :: (before ++ rest)) := by
      rw [collect_of_nextProjected hnext, hcollect, map_ok]
    obtain ⟨row', rest', heq, hcompare⟩ := hfirst first rfl _ hall
    cases heq
    refine ⟨row :: before, hpeeked.trans hall, ?_, forall_mem_cons.2 ⟨?_, hbefore⟩, hhead⟩
    · rw [filterMap_cons]
      rcases emitOverlayRow row with _ | e <;> rfl
    · exact TransCmp.lt_of_eq_of_lt hcompare hlt
  | case6 overlay first peeked hpeek hlt =>
    cases h
    obtain ⟨hcollect, -, hfirst⟩ := peekKey_spec hpeek
    obtain ⟨row, tail, rfl, hcompare⟩ := hfirst first rfl rest hrest
    refine ⟨[], hcollect.trans hrest, rfl, nofun, fun e he hless => hlt ?_⟩
    cases he
    exact TransCmp.lt_of_eq_of_lt (compare_swap_eq.1 hcompare) hless

end

/-! ### The loops over rows and pages -/

section

open RowPageView

variable {view : RowPageView} {page : RowPage} {fields : List ℕ} {entry : RowPageEntry}
  {overlay next : OverlayCursor} {upper : EncodedBound}

def keyOf (encoded : Bytes) : RelationalKey :=
  (decodeOrderedRelationalKey encoded).toOption.getD []

/-- What a range read emits for a row of the base. -/
def baseEmitted (fields : List ℕ) (entry : RowPageEntry) : EmittedRow :=
  (keyOf entry.1, projectFields fields entry.2)

lemma peekPrimaryKey_eq_ok (h : peekPrimaryKey entry = .ok key) : key = keyOf entry.1 := by
  rw [peekPrimaryKey] at h
  rw [keyOf]
  split at h
  · cases h
  · rename_i candidate hdecode
    rw [hdecode, ← Except.ok.inj h]
    rfl

lemma nextBaseRow_eq_ok (hfields : AreFields page.columnCount fields)
    (h : nextBaseRow page fields entry = .ok row) : row = baseEmitted fields entry := by
  obtain ⟨key, hkey, projected, hprojected, h⟩ := bind₂_eq_ok.1 h
  rw [← Except.ok.inj h, peekPrimaryKey_eq_ok hkey, decodeRowFields_eq_ok hfields hprojected]
  rfl

lemma rowStep_spec (hfields : AreFields page.columnCount fields)
    (h : rowStep page fields true entry overlay = .ok (emitted, next))
    (hrest : next.collect = .ok rest) :
    ∃ changes, overlay.collect = .ok changes ∧ ∀ rows,
      mergeChanges (baseEmitted fields entry :: rows) changes = emitted ++ mergeChanges rows rest := by
  rw [rowStep, if_pos rfl] at h
  obtain ⟨key, hkey, ⟨before, advanced⟩, hbefore, h⟩ := bind₂_eq_ok.1 h
  obtain ⟨⟨peeked, ready⟩, hpeek, h⟩ := bind_eq_ok.1 h
  obtain rfl := peekPrimaryKey_eq_ok hkey
  obtain ⟨hpeeked, hnone, hfirst⟩ := peekKey_spec hpeek
  dsimp only at h
  split_ifs at h with hmatch
  · rcases peeked with _ | k
    · cases hmatch
    have hk : compare k (keyOf entry.1) = .eq := by simpa using hmatch
    obtain ⟨⟨_ | row, final⟩, hnext, h⟩ := bind_eq_ok.1 h
    · cases h
    cases h
    have hready : ready.collect = .ok (row :: rest) := by
      rw [collect_of_nextProjected hnext, hrest, map_ok]
    obtain ⟨lower, hcollect, rfl, hlower, -⟩ := emitOverlayBefore_spec hbefore
      (hpeeked.trans hready)
    obtain ⟨row', rest', heq, hcompare⟩ := hfirst k rfl _ hready
    cases heq
    refine ⟨_, hcollect, fun rows => ?_⟩
    have hrow : compare row.1 (baseEmitted fields entry).1 = .eq := TransCmp.eq_trans hcompare hk
    rw [mergeChanges_cons_of_eq hlower hrow, append_assoc]
    rfl
  · obtain ⟨row, hrow, h⟩ := bind_eq_ok.1 h
    cases h
    obtain rfl := nextBaseRow_eq_ok hfields hrow
    obtain ⟨lower, hcollect, rfl, hlower, hhead⟩ := emitOverlayBefore_spec hbefore
      (hpeeked.trans hrest)
    refine ⟨_, hcollect, fun rows => ?_⟩
    have hgt : ∀ e ∈ rest.head?, compare e.1 (baseEmitted fields entry).1 = .gt := by
      intro e he
      rcases hc : compare e.1 (baseEmitted fields entry).1 with _ | _ | _
      · exact absurd hc (hhead e he)
      · rcases peeked with _ | k
        · rw [Except.ok.inj (hrest.symm.trans (hnone rfl))] at he
          cases he
        · obtain ⟨row, tail, rfl, hcompare⟩ := hfirst k rfl rest hrest
          cases he
          have hk : compare k (keyOf entry.1) = .eq :=
            TransCmp.eq_trans (compare_swap_eq.1 hcompare) hc
          exact absurd (by simpa using hk) hmatch
      · rfl
    rw [mergeChanges_cons_of_gt hlower hgt, append_assoc]
    rfl

lemma readRows_spec (hfields : AreFields page.columnCount fields) {later : List RowPageEntry}
    {goOn : OverlayCursor → Except RowPageError (List EmittedRow)}
    (hgoOn : ∀ overlay out, (hasOverlay = false → overlay.collect = .ok []) →
      goOn overlay = .ok out → ∃ changes, overlay.collect = .ok changes ∧
        out = mergeChanges ((later.takeWhile fun e => !upper.above e.1).map (baseEmitted fields))
          changes) : ∀ {rows overlay out}, (hasOverlay = false → overlay.collect = .ok []) →
      readRows page fields upper hasOverlay goOn rows overlay = .ok out →
        ∃ changes, overlay.collect = .ok changes ∧
          out = mergeChanges (((rows ++ later).takeWhile fun e => !upper.above e.1).map
            (baseEmitted fields)) changes
  | [], overlay, out, hempty, h => hgoOn overlay out hempty h
  | entry :: rows, overlay, out, hempty, h => by
    rw [readRows] at h
    rw [cons_append]
    split_ifs at h with habove
    · obtain ⟨changes, hchanges, rfl⟩ := map_eq_ok.1 h
      refine ⟨changes, hchanges, ?_⟩
      rw [takeWhile_cons_of_neg (by simp [habove])]
      rfl
    · obtain ⟨⟨emitted, advanced⟩, hstep, tail, htail, h⟩ := bind₂_eq_ok.1 h
      cases h
      rw [takeWhile_cons_of_pos (by simp [habove]), map_cons]
      rcases Bool.eq_false_or_eq_true hasOverlay with hhas | hhas
      · obtain ⟨rest, hrest, rfl⟩ := readRows_spec hfields hgoOn
          (fun h => nomatch h.symm.trans hhas) htail
        rw [hhas] at hstep
        obtain ⟨changes, hchanges, hmerge⟩ := rowStep_spec hfields hstep hrest
        exact ⟨changes, hchanges, (hmerge _).symm⟩
      · rw [hhas] at hstep
        obtain ⟨row, hrow, h⟩ := bind_eq_ok.1 hstep
        cases h
        obtain rfl := nextBaseRow_eq_ok hfields hrow
        obtain ⟨rest, hrest, rfl⟩ := readRows_spec hfields hgoOn hempty htail
        cases (hempty hhas).symm.trans hrest
        refine ⟨[], hrest, ?_⟩
        rw [mergeChanges_nil_right, mergeChanges_nil_right]
        rfl

lemma encodesTo_encodeBound (h : encodeBound bound = .ok encoded) : bound.EncodesTo encoded := by
  cases bound with
  | unbounded =>
    cases h
    exact .unbounded
  | included key =>
    obtain ⟨x, hx, rfl⟩ := map_eq_ok.1 h
    exact .included (encodeKey_eq_ok hx)
  | excluded key =>
    obtain ⟨x, hx, rfl⟩ := map_eq_ok.1 h
    exact .excluded (encodeKey_eq_ok hx)

lemma lowerBoundRow_eq_ok {limits : RowPageLimits} (hkey : encodeOrderedRelationalKey key = .ok x)
    (h : page.lowerBoundRow limits key inclusive = .ok start) :
    page.rows.drop start =
      page.rows.filter fun e => !EncodedBound.below (some (x, inclusive)) e.1 := by
  rw [RowPage.lowerBoundRow, hkey] at h
  obtain ⟨_, -, h⟩ := bind_eq_ok.1 h
  rw [← Except.ok.inj h]
  exact drop_lowerBoundLoop page.sorted (fun _ _ _ hj => absurd hj (Nat.not_lt_zero _))
    (fun j a ha hj => absurd (List.getElem?_eq_some_iff.1 ha).1 (not_lt.2 hj)) (Nat.zero_le _) le_rfl

lemma rowStart_eq_ok {encoded : EncodedBound} (hlower : lower.EncodesTo encoded)
    (h : view.rowStart page lower applyLowerBound = .ok start) : page.rows.drop start =
      if applyLowerBound then page.rows.filter (fun e => !encoded.below e.1) else page.rows := by
  unfold RowPageView.rowStart at h
  split_ifs at h ⊢
  · cases hlower with
    | unbounded =>
      rw [← Except.ok.inj h]
      simp [below]
    | included hx => exact lowerBoundRow_eq_ok hx h
    | excluded hx => exact lowerBoundRow_eq_ok hx h
  · rw [← Except.ok.inj h, drop_zero]

lemma lowerBound_le_of_pages {pages : List RowPage} (hsorted : SortedPages (page :: pages)) :
    ∀ e ∈ page.rows ++ pages.flatMap (·.rows), (compare page.lowerBound e.1).isLE := by
  refine forall_mem_append.2 ⟨fun e => page.lowerBound_le, fun e he => ?_⟩
  obtain ⟨later, hlater, he⟩ := mem_flatMap.1 he
  have hlt := (pairwise_cons.1 hsorted).1 later hlater
  have := TransCmp.lt_of_lt_of_isLE (TransCmp.lt_of_isLE_of_lt page.bounds_le hlt)
    (later.lowerBound_le he)
  rw [this]
  rfl

lemma EncodedBound.above_of_isLE (h : upper.above x) (hxy : (compare x y).isLE) :
    upper.above y := by
  rcases Ordering.isLE_iff_eq_lt_or_eq_eq.1 hxy with hlt | heq
  · exact above_of_lt h hlt
  · rwa [← LawfulEqOrd.eq_of_compare heq]

/-- The rows that the loop over pages starts from. -/
def rowsFrom (lower : EncodedBound) (applyLowerBound : Bool) : List RowPage → List RowPageEntry
  | [] => []
  | page :: pages =>
    (if applyLowerBound then page.rows.filter (fun e => !lower.below e.1) else page.rows) ++
      pages.flatMap (·.rows)

lemma rowsFrom_false (lower : EncodedBound) (pages : List RowPage) :
    rowsFrom lower false pages = pages.flatMap (·.rows) := by
  cases pages <;> rfl

lemma readPages_spec (hlower : lower.EncodesTo encodedLower) :
    ∀ {pages applyLowerBound overlay}
      {out : List EmittedRow}, SortedPages pages → (hasOverlay = false → overlay.collect = .ok []) →
      view.readPages table root fields lower upper hasOverlay pages applyLowerBound overlay =
        .ok out → ∃ changes, overlay.collect = .ok changes ∧ out = mergeChanges
          (((rowsFrom encodedLower applyLowerBound pages).takeWhile fun e => !upper.above e.1).map
            (baseEmitted fields)) changes
  | [], _, overlay, out, _, _, h => by
    obtain ⟨changes, hchanges, rfl⟩ := map_eq_ok.1 h
    exact ⟨changes, hchanges, rfl⟩
  | page :: pages, applyLowerBound, overlay, out, hsorted, hempty, h => by
    rw [readPages] at h
    split_ifs at h with habove
    · obtain ⟨changes, hchanges, rfl⟩ := map_eq_ok.1 h
      refine ⟨changes, hchanges, ?_⟩
      have hall : ∀ e ∈ rowsFrom encodedLower applyLowerBound (page :: pages),
          upper.above e.1 := fun e he => by
        refine above_of_isLE habove (lowerBound_le_of_pages hsorted e ?_)
        rw [rowsFrom] at he
        refine (mem_append.1 he).elim (fun he => mem_append_left _ ?_) (mem_append_right _)
        split_ifs at he
        · exact mem_of_mem_filter he
        · exact he
      have hnone : (rowsFrom encodedLower applyLowerBound (page :: pages)).takeWhile
          (fun e => !upper.above e.1) = [] := by
        rcases hrows : rowsFrom encodedLower applyLowerBound (page :: pages) with _ | ⟨e, rows⟩
        · rfl
        · have := hall e (hrows ▸ mem_cons_self)
          exact takeWhile_cons_of_neg (by simp [this])
      rw [hnone]
      rfl
    · obtain ⟨_, -, start, hstart, h⟩ := bind₂_eq_ok.1 h
      obtain ⟨_, hvalidate, h⟩ := bind_eq_ok.1 h
      rw [rowsFrom, ← rowStart_eq_ok hlower hstart]
      refine readRows_spec (validateRequestedFields_eq_ok hvalidate) (fun overlay out hempty h => ?_) hempty h
      rw [← rowsFrom_false encodedLower]
      exact readPages_spec hlower hsorted.of_cons hempty h

lemma rowsFrom_drop_eq {lower : EncodedBound} {pages : List RowPage}
    (hbefore : ∀ page ∈ pages.take i, ∀ e ∈ page.rows, lower.below e.1)
    (hafter : ∀ page ∈ (pages.drop i).tail, ∀ e ∈ page.rows, lower.below e.1 = false) :
    rowsFrom lower true (pages.drop i) =
      (pages.flatMap (·.rows)).filter fun e => !lower.below e.1 := by
  have hcut : (pages.flatMap (·.rows)).filter (fun e => !lower.below e.1) =
      ((pages.drop i).flatMap (·.rows)).filter fun e => !lower.below e.1 := by
    conv_lhs => rw [← take_append_drop i pages]
    rw [flatMap_append, filter_append, filter_eq_nil_iff.2, nil_append]
    intro e he
    obtain ⟨page, hpage, he⟩ := mem_flatMap.1 he
    simp [hbefore page hpage e he]
  rw [hcut]
  rcases hdrop : pages.drop i with _ | ⟨page, later⟩
  · rfl
  rw [hdrop] at hafter
  rw [rowsFrom, if_pos rfl, flatMap_cons, filter_append]
  congr 1
  refine (filter_eq_self.2 fun e he => ?_).symm
  obtain ⟨page, hpage, he⟩ := mem_flatMap.1 he
  simp [hafter page hpage e he]

lemma startOrdinal_spec {root : RowTableRoot} {lower : EncodedBound}
    (h : view.startOrdinal root lower = .ok result) :
    match result with
    | none => root.pages = []
    | some i => rowsFrom lower lower.isSome (root.pages.drop i) =
        root.rows.filter fun e => !lower.below e.1 := by
  rcases lower with _ | ⟨x, inclusive⟩
  · cases h
    show rowsFrom none false _ = _
    rw [rowsFrom_false, drop_zero]
    exact (filter_eq_self.2 fun _ _ => rfl).symm
  · obtain ⟨found, hfound, h⟩ := bind_eq_ok.1 h
    rcases findTablePage_eq_ok hfound with ⟨hpages, rfl⟩ | ⟨i, page, rfl, hpage⟩
    · cases h
      exact hpages
    dsimp only at h
    rw [hpage.found] at h
    have hless : ∀ {y z}, below (some (x, inclusive)) z →
        (compare y z).isLE → below (some (x, inclusive)) y :=
      fun {y z} hz hyz => by
        rcases Ordering.isLE_iff_eq_lt_or_eq_eq.1 hyz with hlt | heq
        · exact below_of_lt hz hlt
        · rwa [LawfulEqOrd.eq_of_compare heq]
    have hbefore : ∀ j earlier, root.pages[j]? = some earlier → j < i → ∀ e ∈ earlier.rows,
        below (some (x, inclusive)) e.1 := fun j earlier hj hji e he =>
      hless (below_some.2 (.inl (hpage.before j earlier hj hji))) (earlier.le_upperBound he)
    have hafter : ∀ j later, root.pages[j]? = some later → i < j → ∀ e ∈ later.rows,
        below (some (x, inclusive)) e.1 = false := by
      intro j later hj hij e he
      have hlength := (List.getElem?_eq_some_iff.1 hj).1
      have hlt := TransCmp.lt_of_lt_of_isLE (SortedPages.lt root.sorted hpage.found hj hij)
        (later.lowerBound_le he)
      have hge : compare page.upperBound x ≠ .lt := fun hless => by
        have := hpage.last hless
        omega
      rw [← Bool.not_eq_true, below_some]
      rintro (hless | ⟨-, rfl⟩)
      · exact hge (TransCmp.lt_trans hlt hless)
      · exact hge hlt
    have htake : ∀ {n p}, p ∈ root.pages.take n →
        ∃ j < n, root.pages[j]? = some p := fun {n p} hp => by
      obtain ⟨j, hj⟩ := mem_iff_getElem?.1 hp
      rw [getElem?_take] at hj
      split_ifs at hj with hlt
      exact ⟨j, hlt, hj⟩
    have hdrop : ∀ {n p}, p ∈ (root.pages.drop n).tail →
        ∃ j, n < j ∧ root.pages[j]? = some p := fun {n p} hp => by
      rw [tail_drop] at hp
      obtain ⟨j, hj⟩ := mem_iff_getElem?.1 hp
      rw [getElem?_drop] at hj
      exact ⟨_, by omega, hj⟩
    dsimp only at h
    split_ifs at h with hpast
    · cases h
      refine rowsFrom_drop_eq (fun p hp e he => ?_) fun p hp e he => ?_
      · obtain ⟨j, hj, hp'⟩ := htake hp
        rcases Nat.lt_or_eq_of_le (Nat.le_of_lt_succ hj) with hj | rfl
        · exact hbefore j p hp' hj e he
        · cases hpage.found.symm.trans hp'
          exact hless hpast (page.le_upperBound he)
      · obtain ⟨j, hj, hp⟩ := hdrop hp
        exact hafter j p hp (by omega) e he
    · cases h
      refine rowsFrom_drop_eq (fun p hp e he => ?_) fun p hp e he => ?_
      · obtain ⟨j, hj, hp⟩ := htake hp
        exact hbefore j p hp hj e he
      · obtain ⟨j, hj, hp⟩ := hdrop hp
        exact hafter j p hp hj e he

end

/-! ### The sources of a range -/

section

open RowPageView

variable {view : RowPageView} {table : String} {lower upper : KeyBound} {fields : List ℕ}
  {change : RowChangeEntry}

def projectedChange (fields : List ℕ) (change : RowChangeEntry) :
    OverlayEntry RelationalKey (Option ProjectedRow) :=
  ⟨change.key, change.epoch, change.value.map (projectFields fields)⟩

lemma eq_map_of_mapM {α β : Type*} {f : α → Except RowPageError β} {g : α → β}
    (hfg : ∀ a b, f a = .ok b → b = g a) {l : List α} {m : List β} (h : l.mapM f = .ok m) :
    m = l.map g := by
  replace h := mapM_eq_ok h
  induction h with
  | nil => rfl
  | cons hab _ ih => rw [map_cons, ← hfg _ _ hab, ih]

variable {raw : List (List RowChangeEntry)}

lemma projectEntries_eq_ok
    {project : Option RelationalRow → Except RowPageError (Option ProjectedRow)}
    (hproject : ∀ value projected, project value = .ok projected →
      projected = value.map (projectFields fields))
    {sources : List (List (OverlayEntry RelationalKey (Option ProjectedRow)))}
    (h : raw.mapM (·.mapM (projectEntry project)) = .ok sources) :
    sources = raw.map (·.map (projectedChange fields)) := by
  refine eq_map_of_mapM (fun source m hm => eq_map_of_mapM (fun entry e he => ?_) hm) h
  obtain ⟨value, hvalue, he⟩ := bind_eq_ok.1 he
  rw [← Except.ok.inj he, hproject _ _ hvalue]
  rfl

variable {a b : RelationalRowChange}

lemma compareChange_lt :
    compareChange a b.table b.primaryKey = .lt ↔ compare a.table b.table = .lt ∨
      a.table = b.table ∧ compare a.primaryKey b.primaryKey = .lt := by
  rw [compareChange, Ordering.then_eq_lt, LawfulEqOrd.compare_eq_iff_eq]

lemma keyPrecedesLower_of_lt {a b : RelationalKey} (hab : compare a b = .lt)
    (h : keyPrecedesLower b lower) : keyPrecedesLower a lower := by
  cases lower with
  | unbounded => nomatch h
  | included key => exact decide_eq_true (TransCmp.lt_trans hab (of_decide_eq_true h))
  | excluded key =>
    show (compare a key).isLE = true
    rw [TransCmp.lt_of_lt_of_isLE hab h]
    rfl

lemma keyExceedsUpper_of_lt {a b : RelationalKey} (hab : compare a b = .lt)
    (h : keyExceedsUpper a upper) : keyExceedsUpper b upper := by
  cases upper with
  | unbounded => nomatch h
  | included key =>
    refine decide_eq_true (compare_gt_iff.2 ?_)
    exact TransCmp.lt_trans (compare_gt_iff.1 (of_decide_eq_true h)) hab
  | excluded key =>
    have hle : (compare key a).isLE := OrientedCmp.isGE_iff_isLE.1 h
    show (compare b key).isGE = true
    rw [compare_gt_iff.2 (TransCmp.lt_of_isLE_of_lt hle hab)]
    rfl

variable {c : RelationalRowChange}

lemma precedes_eq_true : LiveBatch.precedes table lower c ↔
    compare c.table table = .lt ∨ c.table = table ∧ keyPrecedesLower c.primaryKey lower := by
  rw [LiveBatch.precedes, ← LawfulEqOrd.compare_eq_iff_eq (α := String)]
  rcases compare c.table table with _ | _ | _ <;> simp

lemma reaches_eq_false : LiveBatch.reaches table upper c = false ↔
    compare table c.table = .lt ∨ c.table = table ∧ keyExceedsUpper c.primaryKey upper := by
  rw [LiveBatch.reaches, ← compare_gt_iff, ← LawfulEqOrd.compare_eq_iff_eq (α := String)]
  rcases compare c.table table with _ | _ | _ <;> simp

lemma precedes_of_lt (hab : compareChange a b.table b.primaryKey = .lt)
    (hb : LiveBatch.precedes table lower b) : LiveBatch.precedes table lower a := by
  rw [precedes_eq_true] at hb ⊢
  rcases compareChange_lt.1 hab with hlt | ⟨htable, hlt⟩
  · rcases hb with hb | ⟨rfl, -⟩
    · exact .inl (TransCmp.lt_trans hlt hb)
    · exact .inl hlt
  · rw [htable]
    exact hb.imp_right fun ⟨hb, hkey⟩ => ⟨hb, keyPrecedesLower_of_lt hlt hkey⟩

/-- What lies past a range is closed upwards in the order of a batch. -/
theorem reaches_of_lt (hab : compareChange a b.table b.primaryKey = .lt)
    (ha : LiveBatch.reaches table upper a = false) : LiveBatch.reaches table upper b = false := by
  rw [reaches_eq_false] at ha ⊢
  rcases compareChange_lt.1 hab with hlt | ⟨htable, hlt⟩
  · rcases ha with ha | ⟨rfl, -⟩
    · exact .inl (TransCmp.lt_trans ha hlt)
    · exact .inl hlt
  · rw [← htable]
    exact ha.imp_right fun ⟨ha, hkey⟩ => ⟨ha, keyExceedsUpper_of_lt hlt hkey⟩

lemma rangeEntries_eq (batch : LiveBatch) : batch.rangeEntries table lower upper =
    (batch.changes.filter fun c => LiveBatch.reaches table upper c &&
      !LiveBatch.precedes table lower c).map fun c => ⟨c.primaryKey, batch.commitEpoch, c.row⟩ := by
  have hprecedes : ∀ a b, compareChange a b.table b.primaryKey = .lt →
      LiveBatch.precedes table lower a = false → LiveBatch.precedes table lower b = false :=
    fun a b hab ha => by
      rw [← Bool.not_eq_true] at ha ⊢
      exact fun hb => ha (precedes_of_lt hab hb)
  rw [LiveBatch.rangeEntries, dropWhile_eq_filter batch.sorted hprecedes,
    takeWhile_eq_filter (batch.sorted.filter _) fun _ _ => reaches_of_lt, filter_filter]

lemma precedes_reaches_iff :
    (LiveBatch.reaches table upper c && !LiveBatch.precedes table lower c) = true ↔
      c.table = table ∧ InRange lower upper c.primaryKey := by
  rw [LiveBatch.reaches, LiveBatch.precedes, ← LawfulEqOrd.compare_eq_iff_eq (α := String)]
  rcases compare c.table table with _ | _ | _ <;> simp [InRange, and_comm]

lemma mem_rangeEntries {batch : LiveBatch} : change ∈ batch.rangeEntries table lower upper ↔
    change ∈ batch.changesOf table ∧ InRange lower upper change.key := by
  rw [rangeEntries_eq, LiveBatch.mem_changesOf]
  simp only [mem_map, mem_filter, precedes_reaches_iff]
  constructor
  · rintro ⟨c, ⟨hc, htable, hrange⟩, rfl⟩
    exact ⟨⟨c, hc, htable, rfl⟩, hrange⟩
  · rintro ⟨⟨c, hc, htable, rfl⟩, hrange⟩
    exact ⟨c, ⟨hc, htable, hrange⟩, rfl⟩

lemma sorted_rangeEntries (batch : LiveBatch) :
    (batch.rangeEntries table lower upper).Pairwise fun a b => compare a.key b.key = .lt := by
  rw [rangeEntries_eq, pairwise_map]
  refine (batch.sorted.filter _).imp_of_mem fun {a b} ha hb hab => ?_
  have ha := (precedes_reaches_iff.1 (mem_filter.1 ha).2).1
  have hb := (precedes_reaches_iff.1 (mem_filter.1 hb).2).1
  rcases compareChange_lt.1 hab with hlt | ⟨-, hlt⟩
  · rw [ha, hb] at hlt
    exact (not_compare_self_lt hlt).elim
  · exact hlt

lemma exists_heldIn {K V : Type*} {sources : List (List (OverlayEntry K V))}
    {e : OverlayEntry K V} :
    (∃ i, StreamingOverlayCursor.HeldIn sources i e) ↔ ∃ source ∈ sources, e ∈ source := by
  simp only [StreamingOverlayCursor.heldIn_iff, mem_iff_getElem?]
  constructor
  · rintro ⟨i, source, hsource, he⟩
    exact ⟨source, ⟨i, hsource⟩, he⟩
  · rintro ⟨source, ⟨i, hsource⟩, he⟩
    exact ⟨i, source, hsource, he⟩

lemma mem_rangeSources {reader : RowDeltaReader} (hopened : reader.Opened)
    (h : reader.rangeSources table lower upper = .ok raw) :
    StreamingOverlayCursor.SortedSources raw ∧ ∀ change, (∃ source ∈ raw, change ∈ source) ↔
      change ∈ reader.changesOf table ∧ InRange lower upper change.key := by
  rcases htable : reader.context.tableOrdinal table with _ | ordinal
  · rw [RowDeltaReader.rangeSources, htable] at h
    cases h
    refine ⟨by rintro _ ⟨⟩, fun change => ⟨fun h => ?_, fun h => ?_⟩⟩
    · obtain ⟨_, h, -⟩ := h
      cases h
    obtain ⟨-, -, entry, -, hordinal, -⟩ := (mem_changesOf hopened).1 h.1
    cases htable.symm.trans hordinal
  have hraw := h
  rw [RowDeltaReader.rangeSources, htable] at h
  obtain ⟨encodedLower, hlower, encodedUpper, hupper, -⟩ := bind₂_eq_ok.1 h
  obtain ⟨raw', hraw', hcovers⟩ := rangeSources_spec htable hlower hupper hopened.areEntries
  cases hraw.symm.trans hraw'
  refine ⟨hcovers.sorted, fun change => ?_⟩
  rw [← exists_heldIn]
  constructor
  · rintro ⟨i, he⟩
    obtain ⟨run, hrun, entry, hentry, hin, hdecoded⟩ := hcovers.sound i change he
    obtain ⟨hordinal, hrange⟩ := (inEncodedRange_iff hlower hupper hdecoded.encode).1 hin
    exact ⟨(mem_changesOf hopened).2 ⟨run, hrun, entry, hentry, hordinal ▸ htable, hdecoded⟩, hrange⟩
  · rintro ⟨hchange, hrange⟩
    obtain ⟨run, hrun, entry, hentry, hordinal, hdecoded⟩ := (mem_changesOf hopened).1 hchange
    obtain ⟨i, e, he, hdecoded'⟩ := hcovers.complete run hrun entry hentry
      ((inEncodedRange_iff hlower hupper hdecoded.encode).2
        ⟨Option.some.inj (hordinal.symm.trans htable), hrange⟩)
    have hentry := (hopened.entries run hrun entry hentry).2.1
    have heq := ((changeOf_eq_some hentry).2 hdecoded').symm.trans ((changeOf_eq_some hentry).2 hdecoded)
    exact ⟨i, Option.some.inj heq ▸ he⟩

/-- The overlay of a range holds the changes inside the bounds. -/
structure CoversChanges (view : RowPageView) (table : String) (lower upper : KeyBound)
    (fields : List ℕ) (sources : List (List (OverlayEntry RelationalKey (Option ProjectedRow)))) :
    Prop where
  sorted : StreamingOverlayCursor.SortedSources sources
  mem_iff : ∀ e, (∃ i, StreamingOverlayCursor.HeldIn sources i e) ↔
    ∃ change ∈ view.changes table, InRange lower upper change.key ∧
      e = projectedChange fields change

lemma coversChanges_of_ok {root : RowTableRoot} {columnCount : ℕ}
    {recovery live : List (List (OverlayEntry RelationalKey (Option ProjectedRow)))}
    (hroot : view.base.get table = some root) (hfields : AreFields root.columnCount fields)
    (hrecovery : view.recoverySources table lower upper fields = .ok recovery)
    (hlive : view.liveSources table lower upper columnCount fields = .ok live) :
    CoversChanges view table lower upper fields (recovery ++ live) := by
  -- the sources of the delta before they are projected
  obtain ⟨raw, rfl, hsorted, hmem⟩ : ∃ raw, recovery = raw.map (·.map (projectedChange fields)) ∧
      StreamingOverlayCursor.SortedSources raw ∧ ∀ change, (∃ source ∈ raw, change ∈ source) ↔
        change ∈ view.deltaChanges table ∧ InRange lower upper change.key := by
    rw [recoverySources] at hrecovery
    rw [deltaChanges]
    rcases hdelta : view.delta with _ | reader
    · rw [hdelta] at hrecovery
      cases hrecovery
      exact ⟨[], rfl, by rintro _ ⟨⟩, fun change => by simp⟩
    rw [hdelta] at hrecovery
    obtain ⟨raw, hraw, h⟩ := bind_eq_ok.1 hrecovery
    obtain ⟨hopened, -, -, hcolumns⟩ := view.deltaOpened reader hdelta
    obtain ⟨hsorted, hmem⟩ := mem_rangeSources hopened hraw
    refine ⟨raw, ?_, hsorted, hmem⟩
    rcases htable : reader.context.tableOrdinal table with _ | ordinal
    · rw [RowDeltaReader.rangeSources, htable] at hraw
      cases hraw
      exact (Except.ok.inj h).symm
    obtain ⟨t, ht, hname⟩ := tableOrdinal_eq_some htable
    have hcount : t.columnCount = root.columnCount :=
      hcolumns t (mem_of_getElem? ht) root (by rw [hname, hroot])
    rw [htable, Option.bind_some, ht, Option.map_some, Option.getD_some, hcount] at h
    exact projectEntries_eq_ok (fun _ _ => decodeProjectedValue_eq_ok hfields) h
  obtain rfl := projectEntries_eq_ok (fun _ _ => projectOverlayValue_eq_ok) hlive
  rw [← map_append]
  constructor
  · intro projected hprojected
    obtain ⟨source, hsource, rfl⟩ := mem_map.1 hprojected
    rw [pairwise_map]
    rcases mem_append.1 hsource with hsource | hsource
    · exact hsorted source hsource
    · obtain ⟨batch, -, rfl⟩ := mem_map.1 (mem_of_mem_filter hsource)
      exact sorted_rangeEntries batch
  · intro e
    have hliveMem : ∀ change, (∃ source ∈ (view.live.map (·.rangeEntries table lower upper)).filter
        (!·.isEmpty), change ∈ source) ↔ change ∈ view.live.flatMap (·.changesOf table) ∧
          InRange lower upper change.key := fun change => by
      constructor
      · rintro ⟨source, hsource, hchange⟩
        obtain ⟨batch, hbatch, rfl⟩ := mem_map.1 (mem_of_mem_filter hsource)
        obtain ⟨hchange, hrange⟩ := mem_rangeEntries.1 hchange
        exact ⟨mem_flatMap.2 ⟨batch, hbatch, hchange⟩, hrange⟩
      · rintro ⟨hchange, hrange⟩
        obtain ⟨batch, hbatch, hchange⟩ := mem_flatMap.1 hchange
        have hmem := mem_rangeEntries.2 ⟨hchange, hrange⟩
        refine ⟨_, mem_filter.2 ⟨mem_map.2 ⟨batch, hbatch, rfl⟩, ?_⟩, hmem⟩
        simpa using ne_nil_of_mem hmem
    have hsources : ∀ change, (∃ source ∈ raw ++ (view.live.map
        (·.rangeEntries table lower upper)).filter (!·.isEmpty), change ∈ source) ↔
          change ∈ view.changes table ∧ InRange lower upper change.key := fun change => by
      rw [RowPageView.changes, mem_append, or_and_right, ← hmem, ← hliveMem]
      simp only [mem_append, or_and_right, exists_or]
    rw [exists_heldIn]
    constructor
    · rintro ⟨projected, hprojected, he⟩
      obtain ⟨source, hsource, rfl⟩ := mem_map.1 hprojected
      obtain ⟨change, hchange, rfl⟩ := mem_map.1 he
      obtain ⟨hchange, hrange⟩ := (hsources change).1 ⟨source, hsource, hchange⟩
      exact ⟨change, hchange, hrange, rfl⟩
    · rintro ⟨change, hchange, hrange, rfl⟩
      obtain ⟨source, hsource, hchange⟩ := (hsources change).2 ⟨hchange, hrange⟩
      exact ⟨_, mem_map.2 ⟨source, hsource, rfl⟩, mem_map.2 ⟨change, hchange, rfl⟩⟩

end

/-! ### The rows of a range -/

section

open RowPageView

variable {view : RowPageView} {table : String} {lower upper : KeyBound} {fields : List ℕ}
  {root : RowTableRoot} {key : RelationalKey}

lemma InRange.congr (h : compare a b = .eq) : InRange lower upper a ↔ InRange lower upper b := by
  have hlower : keyPrecedesLower a lower = keyPrecedesLower b lower := by
    cases lower <;> simp [keyPrecedesLower, TransCmp.congr_left h]
  have hupper : keyExceedsUpper a upper = keyExceedsUpper b upper := by
    cases upper <;> simp [keyExceedsUpper, TransCmp.congr_left h]
  rw [InRange, InRange, hlower, hupper]

lemma encode_keyOf (h : IsKeyBytes x) : encodeOrderedRelationalKey (keyOf x) = .ok x := by
  obtain ⟨key, hdecode, hencode⟩ := h
  rw [keyOf, hdecode]
  exact hencode

lemma exists_bound_of_encodesTo (key : RelationalKey)
    (h : bound.EncodesTo (some (x, inclusive))) :
    ∃ limit, encodeOrderedRelationalKey limit = .ok x ∧
      (keyPrecedesLower key bound = false →
        (compare limit key).isLE ∧ (inclusive = false → compare limit key = .lt)) ∧
      (keyExceedsUpper key bound = false →
        (compare key limit).isLE ∧ (inclusive = false → compare key limit = .lt)) := by
  cases h with
  | @included limit _ hx | @excluded limit _ hx =>
    refine ⟨limit, hx, ?_⟩
    have hswap : compare limit key = (compare key limit).swap := OrientedCmp.eq_swap
    rw [hswap]
    rcases hc : compare key limit with _ | _ | _ <;> simp [keyPrecedesLower, keyExceedsUpper, hc]

lemma not_inRange_of_areEmpty (hlower : lower.EncodesTo encodedLower)
    (hupper : upper.EncodesTo encodedUpper)
    (h : areEmpty encodedLower encodedUpper) : ¬ InRange lower upper key := by
  rintro ⟨hprecedes, hexceeds⟩
  rcases encodedLower with _ | ⟨x, linc⟩
  · cases h
  rcases encodedUpper with _ | ⟨y, uinc⟩
  · cases h
  obtain ⟨l, hx, hlower, -⟩ := exists_bound_of_encodesTo key hlower
  obtain ⟨u, hy, -, hupper⟩ := exists_bound_of_encodesTo key hupper
  obtain ⟨hle, hlt⟩ := hlower hprecedes
  obtain ⟨hle', hlt'⟩ := hupper hexceeds
  have hcompare := compare_encodeOrderedRelationalKey hx hy
  have hboth := TransCmp.isLE_trans hle hle'
  rcases of_decide_eq_true h with hgt | ⟨rfl, hinc⟩
  · rw [← hcompare, hgt] at hboth
    cases hboth
  rw [ReflOrd.compare_self] at hcompare
  rcases linc with _ | _
  · cases hcompare.trans (TransCmp.lt_of_lt_of_isLE (hlt rfl) hle')
  · rcases uinc with _ | _
    · cases hcompare.trans (TransCmp.lt_of_isLE_of_lt hle (hlt' rfl))
    · cases hinc

lemma baseRow_eq_some (hroot : view.base.get table = some root) :
    view.baseRow table key = some row ↔
      ∃ entry ∈ root.rows, compare (keyOf entry.1) key = .eq ∧ entry.2 = row := by
  constructor
  · intro h
    rw [RowPageView.baseRow, hroot, Option.bind_some, Option.map_eq_some_iff] at h
    obtain ⟨entry, hfind, rfl⟩ := h
    have hentry := mem_of_find?_eq_some hfind
    obtain ⟨candidate, hdecode, -⟩ := isKeyBytes_of_mem_rows hentry
    have := find?_some hfind
    rw [hdecode] at this
    refine ⟨entry, hentry, ?_, rfl⟩
    rw [keyOf, hdecode]
    exact of_decide_eq_true this
  · rintro ⟨entry, hentry, heq, rfl⟩
    have hencode := encodeOrderedRelationalKey_congr heq (encode_keyOf (isKeyBytes_of_mem_rows hentry))
    rw [baseRow_eq hroot hencode,
      (findEntry_eq_some_iff root.sortedKeys_rows).2 ⟨hentry, ReflOrd.compare_self⟩]
    rfl

def baseRowsIn (root : RowTableRoot) (lower upper : EncodedBound) : List RowPageEntry :=
  (root.rows.filter fun e => !lower.below e.1).takeWhile fun e => !upper.above e.1

lemma mem_baseRowsIn {entry : RowPageEntry} (hlower : lower.EncodesTo encodedLower)
    (hupper : upper.EncodesTo encodedUpper) : entry ∈ baseRowsIn root encodedLower encodedUpper ↔
      entry ∈ root.rows ∧ InRange lower upper (keyOf entry.1) := by
  have hclosed : ∀ a b : RowPageEntry, compare a.1 b.1 = .lt → (!encodedUpper.above a.1) = false →
      (!encodedUpper.above b.1) = false := fun a b hab ha => by
    rw [Bool.not_eq_false'] at ha ⊢
    exact above_of_lt ha hab
  rw [baseRowsIn, takeWhile_eq_filter (root.sortedKeys_rows.filter _) hclosed, mem_filter,
    mem_filter, and_assoc]
  refine and_congr_right fun hentry => ?_
  have hencode := encode_keyOf (isKeyBytes_of_mem_rows hentry)
  rw [(below_above_eq hlower hencode).1, (below_above_eq hupper hencode).2, Bool.not_eq_true',
    Bool.not_eq_true', InRange]

lemma sorted_baseRowsIn (fields : List ℕ) :
    SortedKeys ((baseRowsIn root encodedLower encodedUpper).map (baseEmitted fields)) := by
  have hsub : (baseRowsIn root encodedLower encodedUpper).Sublist root.rows :=
    (takeWhile_sublist _).trans filter_sublist
  rw [SortedKeys, pairwise_map]
  refine (root.sortedKeys_rows.sublist hsub).imp_of_mem fun {a b} ha hb hab => ?_
  have hcompare := compare_encodeOrderedRelationalKey
    (encode_keyOf (isKeyBytes_of_mem_rows (hsub.subset ha)))
    (encode_keyOf (isKeyBytes_of_mem_rows (hsub.subset hb)))
  exact hcompare.symm.trans hab

lemma range_eq_ok (h : view.range table lower upper fields = .ok out) :
    ∃ root encodedLower encodedUpper, view.base.get table = some root ∧
      lower.EncodesTo encodedLower ∧ upper.EncodesTo encodedUpper ∧
      (areEmpty encodedLower encodedUpper ∧ out = [] ∨
        ∃ sources changes, CoversChanges view table lower upper fields sources ∧
          (StreamingOverlayCursor.new sources view.baseCommitEpoch
            view.visibleCommitEpoch).collect = .ok changes ∧
          out = mergeChanges ((baseRowsIn root encodedLower encodedUpper).map (baseEmitted fields))
            changes) := by
  obtain ⟨root, hroot, _, hvalidate, h⟩ := bind₂_eq_ok.1 h
  obtain ⟨recovery, hrecovery, live, hlive, h⟩ := bind₂_eq_ok.1 h
  obtain ⟨encodedLower, hlower, encodedUpper, hupper, h⟩ := bind₂_eq_ok.1 h
  have hfields := validateRequestedFields_eq_ok hvalidate
  refine ⟨root, encodedLower, encodedUpper, tableRoot_eq_ok hroot, encodesTo_encodeBound hlower,
    encodesTo_encodeBound hupper, ?_⟩
  by_cases hempty : areEmpty encodedLower encodedUpper
  · rw [if_pos hempty] at h
    exact .inl ⟨hempty, (Except.ok.inj h).symm⟩
  rw [if_neg hempty] at h
  obtain ⟨⟨peeked, overlay⟩, hpeek, h⟩ := bind_eq_ok.1 h
  obtain ⟨hcollect, hnone, -⟩ := peekKey_spec hpeek
  have hnothing : root.pages = [] → baseRowsIn root encodedLower encodedUpper = [] := fun hpages => by
    rw [baseRowsIn, RowTableRoot.rows, hpages]
    rfl
  refine .inr ⟨recovery ++ live, ?_⟩
  suffices hmerged : ∃ changes, overlay.collect = .ok changes ∧ out = mergeChanges
      ((baseRowsIn root encodedLower encodedUpper).map (baseEmitted fields)) changes by
    obtain ⟨changes, hchanges, hout⟩ := hmerged
    exact ⟨changes, coversChanges_of_ok (tableRoot_eq_ok hroot) hfields hrecovery hlive,
      hcollect.trans hchanges, hout⟩
  dsimp only at h
  by_cases hpages : root.pages = []
  · rw [if_pos (isEmpty_iff.2 hpages)] at h
    obtain ⟨changes, hchanges, rfl⟩ := map_eq_ok.1 h
    exact ⟨changes, hchanges, by rw [hnothing hpages]; rfl⟩
  rw [if_neg (fun hcon => hpages (isEmpty_iff.1 hcon))] at h
  obtain ⟨start, hstart, h⟩ := bind_eq_ok.1 h
  have hspec := startOrdinal_spec hstart
  cases start with
  | none => exact absurd hspec hpages
  | some i =>
    have hsorted : SortedPages (root.pages.drop i) := root.sorted.sublist (drop_sublist _ _)
    obtain ⟨changes, hchanges, rfl⟩ := readPages_spec (encodesTo_encodeBound hlower) hsorted
      (fun hno => hnone (by simpa using hno)) h
    exact ⟨changes, hchanges, by rw [hspec]; rfl⟩

lemma range_spec (hview : view.NoKeyTwiceAtEpoch)
    (h : view.range table lower upper fields = .ok out) :
    SortedKeys out ∧ ∀ key row, (∃ e ∈ out, compare e.1 key = .eq ∧ e.2 = row) ↔
      InRange lower upper key ∧ (view.rowAt table key).map (projectFields fields) = some row := by
  obtain ⟨root, encodedLower, encodedUpper, hroot, hlower, hupper, ⟨hempty, rfl⟩ | hmerged⟩ :=
    range_eq_ok h
  · refine ⟨.nil, fun key row => ⟨fun ⟨_, h, _⟩ => (nomatch h), fun ⟨hrange, _⟩ => ?_⟩⟩
    exact absurd hrange (not_inRange_of_areEmpty hlower hupper hempty)
  obtain ⟨sources, changes, hcovers, hcollect, rfl⟩ := hmerged
  obtain ⟨hnewest, -⟩ := StreamingOverlayCursor.collect_new_spec hcovers.sorted hcollect
  have hbase : SortedKeys ((baseRowsIn root encodedLower encodedUpper).map (baseEmitted fields)) :=
    sorted_baseRowsIn fields
  have hmerge := isMerge_mergeChanges hbase hnewest.sorted
  refine ⟨hmerge.sorted, fun key row => ?_⟩
  -- a row of the overlay is the newest change of its key
  have hchange : ∀ e ∈ changes, compare e.1 key = .eq → ∃ change,
      IsNewestChange (view.changes table) key change ∧ InRange lower upper key ∧
        e.2 = change.value.map (projectFields fields) := by
    intro e he heq
    obtain ⟨i, entry, hheld, rfl, hmax⟩ := hnewest.sound e he
    obtain ⟨change, hmem, hrange, rfl⟩ := (hcovers.mem_iff entry).1 ⟨i, hheld⟩
    refine ⟨change, ⟨hmem, heq, fun other hother heq' => ?_⟩, (InRange.congr heq).1 hrange, rfl⟩
    have hkeys := TransCmp.eq_trans heq' (compare_swap_eq.1 heq)
    obtain ⟨j, hj⟩ := (hcovers.mem_iff (projectedChange fields other)).2
      ⟨other, hother, (InRange.congr hkeys).2 hrange, rfl⟩
    exact hmax j _ hj hkeys
  -- a key with a change inside the bounds is in the overlay
  have hcomplete : InRange lower upper key → ∀ change ∈ view.changes table,
      compare change.key key = .eq → ∃ e ∈ changes, compare e.1 key = .eq := by
    intro hrange change hmem heq
    obtain ⟨i, hi⟩ := (hcovers.mem_iff (projectedChange fields change)).2
      ⟨change, hmem, (InRange.congr heq).2 hrange, rfl⟩
    obtain ⟨e, he, hkey⟩ := hnewest.complete i _ hi
    exact ⟨e, he, TransCmp.eq_trans hkey heq⟩
  constructor
  · rintro ⟨e, he, heq, rfl⟩
    rcases (hmerge.mem_iff e).1 he with he | ⟨he, hno⟩
    · obtain ⟨change, hnew, hrange, hvalue⟩ := hchange _ he heq
      exact ⟨hrange, by rw [rowAt_of_newest hview hnew]; exact hvalue.symm⟩
    obtain ⟨entry, hentry, rfl⟩ := mem_map.1 he
    obtain ⟨hentry, hrange⟩ := (mem_baseRowsIn hlower hupper).1 hentry
    have hrange := (InRange.congr heq).1 hrange
    have hunchanged : ∀ change ∈ view.changes table, compare change.key key ≠ .eq := by
      intro change hmem heq'
      obtain ⟨e, he, hkey⟩ := hcomplete hrange change hmem heq'
      exact hno e he (TransCmp.eq_trans hkey (compare_swap_eq.1 heq))
    refine ⟨hrange, ?_⟩
    rw [rowAt_of_unchanged hunchanged, (baseRow_eq_some hroot).2 ⟨entry, hentry, heq, rfl⟩]
    rfl
  · rintro ⟨hrange, hrow⟩
    by_cases hchanged : ∃ change ∈ view.changes table, compare change.key key = .eq
    · obtain ⟨change, hmem, heq⟩ := hchanged
      obtain ⟨e, he, hkey⟩ := hcomplete hrange change hmem heq
      obtain ⟨newest, hnew, -, hvalue⟩ := hchange e he hkey
      rw [rowAt_of_newest hview hnew, ← hvalue] at hrow
      exact ⟨(e.1, row), (hmerge.mem_iff _).2 (.inl (hrow ▸ he)), hkey, rfl⟩
    · have hunchanged : ∀ change ∈ view.changes table, compare change.key key ≠ .eq :=
        fun change hmem heq => hchanged ⟨change, hmem, heq⟩
      rw [rowAt_of_unchanged hunchanged] at hrow
      obtain ⟨baseRow, hbase, rfl⟩ := Option.map_eq_some_iff.1 hrow
      obtain ⟨entry, hentry, heq, rfl⟩ := (baseRow_eq_some hroot).1 hbase
      refine ⟨baseEmitted fields entry, (hmerge.mem_iff _).2 (.inr ⟨mem_map.2 ⟨entry,
        (mem_baseRowsIn hlower hupper).2 ⟨hentry, (InRange.congr heq).2 hrange⟩, rfl⟩,
        fun e he hkey => ?_⟩), heq, rfl⟩
      obtain ⟨newest, hnew, -⟩ := hchange e he (TransCmp.eq_trans hkey heq)
      exact hunchanged newest hnew.mem hnew.key_eq

/-- Point, multi-point and range reads that succeed read one map: the base rows overridden by the
newest change of each key. -/
theorem snapshot_reads_newest (view : RowPageView) (hview : view.NoKeyTwiceAtEpoch)
    (table : String) (fields : List ℕ) : (∀ key row, view.point table key fields = .ok row →
      row = (view.rowAt table key).map (projectFields fields)) ∧
    (∀ keys rows, view.points table keys fields = .ok rows → ∀ key row,
      rows.get key = some row ↔ (∃ k ∈ keys, compare k key = .eq) ∧
        (view.rowAt table key).map (projectFields fields) = some row) ∧
    ∀ lower upper rows, view.range table lower upper fields = .ok rows →
      SortedKeys rows ∧ ∀ key row, (∃ e ∈ rows, compare e.1 key = .eq ∧ e.2 = row) ↔
        InRange lower upper key ∧ (view.rowAt table key).map (projectFields fields) = some row :=
  ⟨fun _ _ h => point_spec hview h, fun _ _ h => points_spec hview h,
    fun _ _ _ h => range_spec hview h⟩

lemma isKeyBytes_integer (key : Int64) :
    IsKeyBytes ((encodeOrderedRelationalKey [.bigInt key]).toOption.getD []) := by
  have hencode : encodeOrderedRelationalKey [.bigInt key] =
      .ok ((encodeOrderedRelationalKey [.bigInt key]).toOption.getD []) := rfl
  exact isKeyBytes_of_encode hencode (by simp [RelationalValue.isDated])

/-- A page with the rows of two integer keys. -/
def integerPage : RowPage where
  pageId := 1
  columnCount := 1
  rows := [((encodeOrderedRelationalKey [.bigInt 1]).toOption.getD [], [.bigInt 10]),
    ((encodeOrderedRelationalKey [.bigInt 2]).toOption.getD [], [.bigInt 20])]
  nonempty := cons_ne_nil _ _
  sorted := by
    unfold SortedKeys
    decide
  keys := forall_mem_cons.2 ⟨isKeyBytes_integer 1, forall_mem_singleton.2 (isKeyBytes_integer 2)⟩

def integerRoot : RowTableRoot where
  columnCount := 1
  pages := [integerPage]
  sorted := pairwise_singleton _ _
  nextPageId := 2
  distinctIds := nodup_singleton _
  pageId_lt := by decide

/-- A view whose live batch deletes the first row of the page. -/
def deletingView : RowPageView where
  limits := ⟨100, 10⟩
  base := OrdMap.empty.insert "t" integerRoot
  baseCommitEpoch := 0
  delta := none
  live := [⟨1, [⟨"t", [.bigInt 1], none⟩], pairwise_singleton _ _⟩]
  visibleCommitEpoch := 1
  deltaOpened := fun _ h => nomatch h
  liveEpochs := pairwise_singleton _ _
  liveFloor := by simp

theorem snapshot_reads_newest_deleting : (deletingView.rowAt "t" [.bigInt 1] = none ∧
      deletingView.rowAt "t" [.bigInt 2] = some [.bigInt 20]) ∧
    deletingView.range "t" .unbounded .unbounded [0] = .ok [([.bigInt 2], [(0, .bigInt 20)])] ∧
    ∀ row, deletingView.point "t" [.bigInt 1] [0] = .ok row → row = none := by
  have hview : deletingView.NoKeyTwiceAtEpoch := fun table => by
    by_cases htable : "t" = table <;>
      simp [RowPageView.changes, deltaChanges, deletingView, LiveBatch.changesOf, htable]
  have hdeleted : deletingView.rowAt "t" [.bigInt 1] = none := by decide +kernel
  obtain ⟨hpoint, -, -⟩ := snapshot_reads_newest deletingView hview "t" [0]
  refine ⟨⟨hdeleted, by decide +kernel⟩, by decide +kernel, fun row hrow => ?_⟩
  rw [hpoint _ row hrow, hdeleted]
  rfl

end

end HawDB
