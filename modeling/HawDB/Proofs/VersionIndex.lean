import HawDB.VersionIndex
import HawDB.Proofs.CowMap

/-!
# What the operations of the version index do to its stamps

An insertion sets one stamp (`stamp_insertStamp`), a prepared commit those of its write set
(`stamp_applyPrepared`), a commit with a read barrier drops the read summaries first
(`stageWithReadBarrier_spec`), and pruning drops only stamps its rule does not keep.
-/

namespace HawDB

open List VersionKey VersionPage CowSegmentedMap OrdMap

open CowSegmentedMap (flat flat_cons flat_nil)

namespace VersionKey

variable {V : Type*} [Ord V]

omit [Ord V] in
lemma isInline_iff (a : VersionKey V) : a.isInline ↔ a = database ∨ a = readBarrier := by
  cases a <;> simp [isInline]

variable {a : VersionKey V}

lemma eq_database_of_compare (h : compare a database = .eq) : a = database := by
  have hkind := kindRank_eq_of_compare h
  cases a <;> simp [kindRank] at hkind ⊢

lemma eq_readBarrier_of_compare (h : compare a readBarrier = .eq) : a = readBarrier := by
  have hkind := kindRank_eq_of_compare h
  cases a <;> simp [kindRank] at hkind ⊢

lemma eq_of_compare_of_isInline {b : VersionKey V} (h : compare a b = .eq)
    (hb : b.isInline) : a = b := by
  rcases (isInline_iff b).1 hb with rfl | rfl
  · exact eq_database_of_compare h
  · exact eq_readBarrier_of_compare h

end VersionKey

namespace VersionPage

variable {V : Type*} [Ord V]

/-- The bounds a page has cached are those of its stamps. -/
def BoundsOk (page : VersionPage V) : Prop := ∀ b, page.epochBounds = some b → b = page.computedBounds

variable {page : VersionPage V}

lemma boundsOf_eq (h : page.BoundsOk) : page.boundsOf = page.computedBounds := by
  unfold boundsOf
  rcases hb : page.epochBounds with _ | b
  · rfl
  · exact h b hb

omit [Ord V] in
lemma le_foldl_max (l : List (VersionKey V × VersionStamp)) : ∀ init : ℕ × ℕ,
    init.2 ≤ (l.foldl (fun bounds e =>
        (min bounds.1 e.2.commitEpoch, max bounds.2 e.2.commitEpoch)) init).2 ∧
      ∀ e ∈ l, e.2.commitEpoch ≤ (l.foldl (fun bounds e =>
        (min bounds.1 e.2.commitEpoch, max bounds.2 e.2.commitEpoch)) init).2 := by
  induction l with
  | nil => simp
  | cons a l ih =>
    intro init
    obtain ⟨hinit, hrest⟩ := ih (min init.1 a.2.commitEpoch, max init.2 a.2.commitEpoch)
    refine ⟨(le_max_left _ _).trans hinit, fun e he => ?_⟩
    rcases mem_cons.1 he with rfl | he
    · exact (le_max_right _ _).trans hinit
    · exact hrest e he

lemma le_computedBounds (page : VersionPage V) :
    ∀ e ∈ page.entries.entries, e.2.commitEpoch ≤ page.computedBounds.2 :=
  (le_foldl_max page.entries.entries _).2

lemma cacheBounds_entries (floor : Option ℕ) (page : VersionPage V) :
    (page.cacheBounds floor).entries = page.entries := by
  unfold cacheBounds
  split_ifs <;> rfl

lemma cacheBounds_bytes (floor : Option ℕ) (page : VersionPage V) :
    (page.cacheBounds floor).bytes = page.bytes := by
  unfold cacheBounds
  split_ifs <;> rfl

lemma BoundsOk.cacheBounds (h : page.BoundsOk) (floor : Option ℕ) :
    (page.cacheBounds floor).BoundsOk := by
  unfold VersionPage.cacheBounds
  split_ifs
  · rintro b ⟨⟩
    exact boundsOf_eq h
  · exact h

lemma not_keep_of_drop (h : page.BoundsOk) {keep : VersionStamp → Bool}
    (hfloor : ∀ f, floor = some f → ∀ s : VersionStamp, s.commitEpoch < f → keep s = false)
    (hdrop : page.retention keep floor = .drop) : ∀ e ∈ page.entries.entries, keep e.2 = false := by
  intro e he
  rcases floor with _ | f
  · simp only [retention] at hdrop
    split_ifs at hdrop with hkeep hnone
    simpa using all_eq_true.1 hnone e he
  · simp only [retention, boundsOf_eq h] at hdrop
    split_ifs at hdrop with hmin hmax
    exact hfloor f rfl e.2 ((page.le_computedBounds e he).trans_lt hmax)

variable [CowPageWeight V] [TypeSizes]

lemma charge_entries (page : VersionPage V) : page.charge.entries = page.entries := by
  unfold charge
  split_ifs <;> rfl

lemma charge_bytes (page : VersionPage V) : page.charge.bytes = page.bytes := by
  unfold charge
  split_ifs <;> rfl

lemma BoundsOk.charge (h : page.BoundsOk) : page.charge.BoundsOk := by
  unfold VersionPage.charge
  split_ifs <;> exact h

lemma retainMixed_ok (h : page.Ok) (shared : Bool) (keep : VersionStamp → Bool)
    (hne : (page.retainMixed shared keep).entries.entries ≠ []) :
    (page.retainMixed shared keep).Ok where
  nonempty := hne
  capacity := (length_filter_le _ _).trans h.capacity
  bytes := by
    rintro b ⟨⟩
    rfl

end VersionPage

namespace VersionPages

variable {V : Type*} [Ord V] [CowPageWeight V] [TypeSizes]

omit [Ord V] [CowPageWeight V] in
lemma entriesPressure_eq_zero (l : List (VersionKey V × VersionStamp)) : entriesPressure l = 0 := by
  induction l with
  | nil => rfl
  | cons e l ih =>
    have hstep : entriesPressure (e :: l) = 0 + entriesPressure l := sum_cons
    rw [hstep, ih]

section

variable (shared : ℕ → Bool) (keep : VersionStamp → Bool)
  (action : VersionPage V → VersionPageRetention)

/-- What is retained is well formed, comes from the pages, and misses nothing that is kept. -/
theorem retainLoop_spec : ∀ (index : ℕ) (pages : List (VersionPage V)),
    (∀ p ∈ pages, p.Ok) →
    (∀ p ∈ pages, action p = .drop → ∀ e ∈ p.entries.entries, keep e.2 = false) →
      (∀ p ∈ retainLoop shared keep action index pages, p.Ok ∧ (p ∈ pages ∨ p.epochBounds = none)) ∧
      (flat (retainLoop shared keep action index pages)).Sublist (flat pages) ∧
      ∀ e ∈ flat pages, keep e.2 → e ∈ flat (retainLoop shared keep action index pages)
  | _, [], _, _ => by simp [retainLoop]
  | index, page :: pages, hok, hdrop => by
    obtain ⟨hpages, hsub, hkept⟩ := retainLoop_spec (index + 1) pages
      (fun p hp => hok p (mem_cons_of_mem _ hp))
      (fun p hp => hdrop p (mem_cons_of_mem _ hp))
    have hweak : ∀ p ∈ retainLoop shared keep action (index + 1) pages,
        p.Ok ∧ (p ∈ page :: pages ∨ p.epochBounds = none) := fun p hp =>
      ⟨(hpages p hp).1, (hpages p hp).2.imp_left (mem_cons_of_mem _)⟩
    have hpage := hok page mem_cons_self
    unfold retainLoop
    split
    · refine ⟨fun p hp => ?_, hsub.append_left _, fun e he hke => ?_⟩
      · rcases mem_cons.1 hp with rfl | hp
        · exact ⟨hpage, .inl mem_cons_self⟩
        · exact hweak p hp
      · rw [flat_cons, mem_append] at he ⊢
        exact he.imp_right fun he => hkept e he hke
    · rename_i haction
      refine ⟨hweak, hsub.trans (sublist_append_right _ _), fun e he hke => ?_⟩
      rw [flat_cons, mem_append] at he
      refine hkept e (he.resolve_left fun he => ?_) hke
      rw [hdrop page mem_cons_self haction e he] at hke
      exact Bool.false_ne_true hke
    · have hmixed : (page.retainMixed (shared index) keep).entries.entries =
          page.entries.entries.filter fun e => keep e.2 := rfl
      have hin : ∀ e ∈ page.entries.entries, keep e.2 →
          e ∈ (page.retainMixed (shared index) keep).entries.entries := fun e he hke => by
        rw [hmixed]
        exact mem_filter.2 ⟨he, hke⟩
      dsimp only
      split_ifs with hempty
      · refine ⟨hweak, hsub.trans (sublist_append_right _ _), fun e he hke => ?_⟩
        rw [flat_cons, mem_append] at he
        refine hkept e (he.resolve_left fun he => ?_) hke
        have := hin e he hke
        rw [hempty] at this
        exact not_mem_nil this
      · refine ⟨fun p hp => ?_, ?_, fun e he hke => ?_⟩
        · rcases mem_cons.1 hp with rfl | hp
          · exact ⟨retainMixed_ok hpage _ keep hempty, .inr rfl⟩
          · exact hweak p hp
        · rw [flat_cons, flat_cons, hmixed]
          exact filter_sublist.append hsub
        · rw [flat_cons, mem_append] at he ⊢
          exact he.imp (fun he => hin e he hke) fun he => hkept e he hke

end

/-- The pages of an index: those of an ordered map, with the right bounds. -/
structure WF (m : VersionPages V) : Prop where
  inv : m.Inv
  bounds : ∀ page ∈ m.segments, BoundsOk page

lemma wf_empty : WF (.empty : VersionPages V) := ⟨CowSegmentedMap.inv_empty, by simp [CowSegmentedMap.empty]⟩

variable {m : VersionPages V}

lemma WF.map_pages [Std.TransOrd V] (h : m.WF) {f : VersionPage V → VersionPage V}
    (hentries : ∀ p, (f p).entries = p.entries) (hbytes : ∀ p, (f p).bytes = p.bytes)
    (hbounds : ∀ p, BoundsOk p → BoundsOk (f p)) :
    WF ({ m with segments := m.segments.map f } : VersionPages V) ∧
      ∀ key, ({ m with segments := m.segments.map f } : VersionPages V).get key = m.get key := by
  obtain ⟨hinv, hiter⟩ := h.inv.map_pages hentries hbytes
  refine ⟨⟨hinv, fun page hpage => ?_⟩, h.inv.get_of_iter hinv hiter⟩
  obtain ⟨p, hp, rfl⟩ := mem_map.1 hpage
  exact hbounds p (h.bounds p hp)

lemma WF.charge [Std.TransOrd V] (h : m.WF) : m.charge.WF ∧ ∀ key, m.charge.get key = m.get key :=
  h.map_pages charge_entries charge_bytes fun _ hp => hp.charge

lemma WF.insert [Std.TransOrd V] (h : m.WF) (shared : ℕ → Bool) (key : VersionKey V)
    (stamp : VersionStamp) : WF (m.insert shared key stamp).2 where
  inv := (h.inv.insert shared key stamp).1
  bounds page hpage := by
    rcases h.inv.insert_pages shared key stamp page hpage with hp | hnone
    · exact h.bounds page hp
    · intro b hb
      rw [hnone] at hb
      cases hb

end VersionPages

/-- What pruning by a rule may do to a stamp: nothing, or drop it if the rule does not keep it. -/
def Retains (keep : VersionStamp → Bool) (before after : Option VersionStamp) : Prop :=
  after = before ∨ after = none ∧ ∃ s, before = some s ∧ keep s = false

lemma retains_filter (keep : VersionStamp → Bool) (s : Option VersionStamp) :
    Retains keep s (s.filter keep) := by
  rcases s with _ | s
  · exact .inl rfl
  · by_cases hs : keep s
    · exact .inl (by simp [hs])
    · exact .inr ⟨by simp [hs], s, rfl, by simpa using hs⟩

namespace VersionPages

variable {V : Type*} [Ord V] [Std.TransOrd V] [CowPageWeight V] [TypeSizes] {m : VersionPages V}

lemma retains_of_sublist {m' : VersionPages V} {keep : VersionStamp → Bool} (h : m.Inv)
    (h' : m'.Inv) (hsub : m'.iter.Sublist m.iter)
    (hkept : ∀ e ∈ m.iter, keep e.2 → e ∈ m'.iter) (key : VersionKey V) :
    Retains keep (m.get key) (m'.get key) := by
  rw [h.get_eq, h'.get_eq]
  rcases hget : h'.contents.get key with _ | s
  · rcases hbefore : h.contents.get key with _ | s
    · exact .inl rfl
    · refine .inr ⟨rfl, s, rfl, ?_⟩
      obtain ⟨k, hk, hcmp⟩ := get_eq_some_iff.1 hbefore
      by_contra hs
      have hmem : (k, s) ∈ h'.contents.entries := hkept (k, s) hk (by simpa using hs)
      have hfound := get_eq_some_iff.2 ⟨k, hmem, hcmp⟩
      rw [hget] at hfound
      cases hfound
  · obtain ⟨k, hk, hcmp⟩ := get_eq_some_iff.1 hget
    exact .inl (get_eq_some_iff.2 ⟨k, hsub.subset hk, hcmp⟩).symm

lemma WF.retain (h : m.WF) (shared : ℕ → Bool) (keep : VersionStamp → Bool)
    {action : VersionPage V → VersionPageRetention}
    (hdrop : ∀ p ∈ m.segments, action p = .drop → ∀ e ∈ p.entries.entries, keep e.2 = false) :
    WF (m.retain shared keep action) ∧
      ∀ key, Retains keep (m.get key) ((m.retain shared keep action).get key) := by
  obtain ⟨hpages, hsub, hkept⟩ := retainLoop_spec shared keep action 0 m.segments h.inv.ok hdrop
  have hinv : (m.retain shared keep action).Inv := by
    refine ⟨fun p hp => (hpages p hp).1, h.inv.sorted.sublist hsub, length_flatMap.symm, ?_⟩
    rw [entriesPressure_eq_zero]
    exact h.inv.pressure_eq.trans (entriesPressure_eq_zero _)
  refine ⟨⟨hinv, fun page hpage => ?_⟩, retains_of_sublist h.inv hinv hsub hkept⟩
  rcases (hpages page hpage).2 with hp | hnone
  · exact h.bounds page hp
  · intro b hb
    rw [hnone] at hb
    cases hb

end VersionPages

namespace VersionIndex

variable {V : Type*} [Ord V] [CowPageWeight V] [TypeSizes] {index : VersionIndex V}

/-- The pages are well formed. -/
abbrev WF (index : VersionIndex V) : Prop := index.stamps.WF

omit [CowPageWeight V] [TypeSizes] in
lemma stamp_of_not_inline {key : VersionKey V} (h : key.isInline = false) :
    index.stamp key = index.stamps.get key := by
  cases key <;> first | rfl | cases h

omit [CowPageWeight V] [TypeSizes] in
lemma stamp_rel {index' : VersionIndex V} {R : Option VersionStamp → Option VersionStamp → Prop}
    (hdatabase : R index.databaseBarrier index'.databaseBarrier)
    (hread : R index.readBarrier index'.readBarrier)
    (hpages : ∀ key, R (index.stamps.get key) (index'.stamps.get key)) (key : VersionKey V) :
    R (index.stamp key) (index'.stamp key) := by
  rcases hk : key.isInline
  · rw [stamp_of_not_inline hk, stamp_of_not_inline hk]
    exact hpages key
  · rcases (isInline_iff key).1 hk with rfl | rfl
    · exact hdatabase
    · exact hread

lemma wf_withHistoryLimit (maxEstimatedBytes maxHistoryBytes : ℕ) :
    (withHistoryLimit maxEstimatedBytes maxHistoryBytes : VersionIndex V).WF :=
  VersionPages.wf_empty

lemma wf_readBaseline (epoch : ℕ) : (index.readBaseline epoch).WF := VersionPages.wf_empty

variable [Std.TransOrd V]

lemma stamp_congr (h : index.WF) (hab : compare a b = .eq) : index.stamp a = index.stamp b := by
  rcases hb : b.isInline
  · have ha : a.isInline = false := by
      rcases ha : a.isInline
      · rfl
      · rw [eq_of_compare_of_isInline (compare_swap_eq.1 hab) ha, ha] at hb
        exact hb
    rw [stamp_of_not_inline ha, stamp_of_not_inline hb, h.inv.get_eq, h.inv.get_eq,
      get_congr _ hab]
  · rw [eq_of_compare_of_isInline hab hb]

lemma insertStamp_of_not_inline (shared : ℕ → Bool) {key : VersionKey V} (stamp : VersionStamp)
    (h : key.isInline = false) : index.insertStamp shared key stamp =
      { index with
        estimatedBytes :=
          if index.stamps.containsKey key then index.estimatedBytes
          else satAdd index.estimatedBytes (versionStampBytes key)
        stamps := (index.stamps.insert shared key stamp).2 } := by
  cases key <;> first | rfl | cases h

lemma wf_insertStamp (h : index.WF) (shared : ℕ → Bool) (key : VersionKey V)
    (stamp : VersionStamp) : (index.insertStamp shared key stamp).WF := by
  rcases hk : key.isInline
  · rw [insertStamp_of_not_inline shared stamp hk]
    exact VersionPages.WF.insert h shared key stamp
  · rcases (isInline_iff key).1 hk with rfl | rfl <;> exact h

lemma historyFloor_insertStamp (shared : ℕ → Bool) (key : VersionKey V) (stamp : VersionStamp) :
    (index.insertStamp shared key stamp).historyFloor = index.historyFloor := by
  cases key <;> rfl

lemma stamp_insertStamp (h : index.WF) (shared : ℕ → Bool) (key : VersionKey V)
    (stamp : VersionStamp) (key' : VersionKey V) : (index.insertStamp shared key stamp).stamp key' =
      if compare key' key = .eq then some stamp else index.stamp key' := by
  rcases hk : key.isInline
  · rw [insertStamp_of_not_inline shared stamp hk]
    rcases hk' : key'.isInline
    · rw [stamp_of_not_inline hk', stamp_of_not_inline hk']
      exact h.inv.get_insert shared key stamp key'
    have hcmp : compare key' key ≠ .eq := fun hcmp => by
      rw [eq_of_compare_of_isInline (compare_swap_eq.1 hcmp) hk', hk'] at hk
      exact Bool.noConfusion hk
    rw [if_neg hcmp]
    rcases (isInline_iff key').1 hk' with rfl | rfl <;> rfl
  · split_ifs with hcmp
    · rw [eq_of_compare_of_isInline hcmp hk]
      rcases (isInline_iff key).1 hk with rfl | rfl <;> rfl
    · have hne : key' ≠ key := fun heq => hcmp (heq ▸ Std.ReflCmp.compare_self)
      rcases (isInline_iff key).1 hk with rfl | rfl <;>
        cases key' <;> first | rfl | exact absurd rfl hne

lemma applyLoop_spec (shared : ℕ → ℕ → Bool) (epoch : ℕ) :
    ∀ (n : ℕ) (l : List (VersionKey V × VersionWrite)) (index : VersionIndex V), index.WF →
      SortedKeys l → (applyLoop shared epoch n l index).WF ∧
        (applyLoop shared epoch n l index).historyFloor = index.historyFloor ∧
        ∀ key, (applyLoop shared epoch n l index).stamp key =
          ((findEntry key l).map fun e => ⟨epoch, e.2.disposition⟩).or (index.stamp key)
  | _, [], _, h, _ => ⟨h, rfl, fun _ => rfl⟩
  | n, (k, w) :: l, index, h, hsorted => by
    have ⟨hlt, hl⟩ := pairwise_cons.1 hsorted
    obtain ⟨hwf, hfloor, hstamp⟩ := applyLoop_spec shared epoch (n + 1) l
      (index.insertStamp (shared n) k ⟨epoch, w.disposition⟩) (wf_insertStamp h _ _ _) hl
    refine ⟨hwf, hfloor.trans (historyFloor_insertStamp _ _ _), fun key => ?_⟩
    rw [applyLoop, hstamp, stamp_insertStamp h]
    by_cases hk : compare key k = .eq
    · have hk' := compare_swap_eq.1 hk
      have hnone : findEntry key l = none := findEntry_eq_none fun e he => by
        have hgt := Std.TransCmp.lt_of_eq_of_lt hk (hlt e he)
        simp [compare_gt_iff.2 hgt]
      have hsome : findEntry key ((k, w) :: l) = some (k, w) := by simp [findEntry, hk']
      rw [hnone, hsome, if_pos hk]
      rfl
    · have hk' : ¬ compare k key = .eq := fun h => hk (compare_swap_eq.1 h)
      have hrest : findEntry key ((k, w) :: l) = findEntry key l := by simp [findEntry, hk']
      rw [hrest, if_neg hk]

end VersionIndex

def VersionWriteSet.stampOver {V : Type*} [Ord V] (writes : VersionWriteSet V) (epoch : ℕ)
    (key : VersionKey V) (before : Option VersionStamp) : Option VersionStamp :=
  ((writes.writes.get key).map fun w => ⟨epoch, w.disposition⟩).or before

namespace VersionIndex

variable {V : Type*} [Ord V] [CowPageWeight V] [TypeSizes] {index index' : VersionIndex V}

/-- Only leases and caches differ. -/
structure Same (index index' : VersionIndex V) : Prop where
  wf : index'.WF
  floor : index'.historyFloor = index.historyFloor
  stamp : ∀ key, index'.stamp key = index.stamp key

/-- The index after a commit of the writes over the stamps `before`. -/
structure Commits (index : VersionIndex V) (before : VersionKey V → Option VersionStamp)
    (writes : VersionWriteSet V) (epoch : ℕ) (index' : VersionIndex V) : Prop where
  wf : index'.WF
  floor : index'.historyFloor = index.historyFloor
  stamp : ∀ key, index'.stamp key = writes.stampOver epoch key (before key)

lemma Same.refl (h : index.WF) : Same index index := ⟨h, rfl, fun _ => rfl⟩

variable [Std.TransOrd V]

lemma same_charge (h : index.WF) : Same index { index with stamps := index.stamps.charge } where
  wf := (VersionPages.WF.charge h).1
  floor := rfl
  stamp := stamp_rel (R := fun a b => b = a) rfl rfl (VersionPages.WF.charge h).2

lemma applyPrepared_commits (h : index.WF) (shared : ℕ → ℕ → Bool) (writes : VersionWriteSet V)
    (epoch : ℕ) : Commits index index.stamp writes epoch (index.applyPrepared shared writes epoch) := by
  obtain ⟨hwf, hfloor, hstamp⟩ := applyLoop_spec shared epoch 0 writes.writes.entries index h
    writes.writes.sorted
  refine ⟨hwf, hfloor, fun key => (hstamp key).trans ?_⟩
  unfold VersionWriteSet.stampOver OrdMap.get
  rw [Option.map_map]
  rfl

lemma Commits.charge {before : VersionKey V → Option VersionStamp}
    (h : Commits index before writes epoch index') :
    Commits index before writes epoch { index' with stamps := index'.stamps.charge } := by
  have hcharge := same_charge h.wf
  exact ⟨hcharge.wf, hcharge.floor.trans h.floor, fun key => (hcharge.stamp key).trans (h.stamp key)⟩

lemma stage_spec (h : index.WF) (env : HistoryEnv) (writes : VersionWriteSet V) (epoch : ℕ) :
    Same index (index.stage env writes epoch).1 ∧
      ∀ staged, (index.stage env writes epoch).2 = some staged →
        Commits index index.stamp writes epoch staged := by
  unfold stage
  split_ifs
  · exact ⟨.refl h, nofun⟩
  split
  · exact ⟨.refl h, nofun⟩
  split_ifs
  · exact ⟨.refl h, nofun⟩
  have hcharge := same_charge h
  refine ⟨hcharge, fun staged hs => ?_⟩
  cases hs
  have hcommit := (applyPrepared_commits hcharge.wf env.shared writes epoch).charge
  refine ⟨hcommit.wf, hcommit.floor, fun key => ?_⟩
  rw [hcommit.stamp, hcharge.stamp]

lemma withoutSummaries_spec (h : index.WF) (bytes : ℕ) :
    let retained := ofList (index.stamps.iter.filter fun e => !e.1.isReadSummaryKey)
    let kept : VersionIndex V :=
      { index with stamps := .ofOrdMap retained, estimatedBytes := bytes }
    kept.WF ∧ ∀ key, kept.stamp key = if key.isReadSummaryKey then none else index.stamp key := by
  intro retained kept
  have hfilter : retained = h.inv.contents.filter fun e => !e.1.isReadSummaryKey :=
    ext (ofList_entries (h.inv.sorted.filter _))
  obtain ⟨hinv, hiter⟩ := inv_ofOrdMap retained
  have hcontents : hinv.contents = h.inv.contents.filter fun e => !e.1.isReadSummaryKey :=
    ext (hiter.trans (congrArg entries hfilter))
  refine ⟨⟨hinv, fun page hpage => ?_⟩, fun key => ?_⟩
  · intro b hb
    rw [epochBounds_ofOrdMap retained page hpage] at hb
    cases hb
  · rcases hk : key.isInline
    · rw [stamp_of_not_inline hk, stamp_of_not_inline hk]
      have hfiltered := get_filter (p := fun k => !isReadSummaryKey k)
        (fun a b hab => by rw [isReadSummaryKey_eq_of_compare hab]) h.inv.contents key
      rw [hinv.get_eq, hcontents, hfiltered, h.inv.get_eq]
      cases key.isReadSummaryKey <;> rfl
    · rcases (isInline_iff key).1 hk with rfl | rfl <;> rfl

lemma stageWithReadBarrier_spec (h : index.WF) (env : HistoryEnv) (writes : VersionWriteSet V)
    (epoch : ℕ) :
    Same index (index.stageWithReadBarrier env writes epoch).1 ∧
      ∀ staged, (index.stageWithReadBarrier env writes epoch).2 = some staged →
        staged.WF ∧ staged.historyFloor = index.historyFloor ∧
        ∀ key, staged.stamp key =
          if compare key .readBarrier = .eq then some ⟨epoch, .live⟩
          else writes.stampOver epoch key
            (if key.isReadSummaryKey then none else index.stamp key) := by
  unfold stageWithReadBarrier
  split
  · exact ⟨.refl h, nofun⟩
  split
  · exact ⟨.refl h, nofun⟩
  split_ifs
  · exact ⟨.refl h, nofun⟩
  have hcharge := same_charge h
  refine ⟨hcharge, fun staged hs => ?_⟩
  cases hs
  rename_i retainedBytes bytes _ _ _ _ _
  obtain ⟨hwf, hstamp⟩ := withoutSummaries_spec hcharge.wf retainedBytes
  have hcommit := (applyPrepared_commits hwf env.shared writes epoch).charge
  refine ⟨wf_insertStamp hcommit.wf _ _ _,
    (historyFloor_insertStamp _ _ _).trans hcommit.floor, fun key => ?_⟩
  rw [stamp_insertStamp hcommit.wf, hcommit.stamp, hstamp, hcharge.stamp]

/-- The pages are pruned by a rule, and nothing else changes that a read could see. -/
structure Prunes (index : VersionIndex V) (keep : VersionStamp → Bool) (index' : VersionIndex V) :
    Prop where
  wf : index'.WF
  floor : index'.historyFloor = index.historyFloor
  database : index'.databaseBarrier = index.databaseBarrier
  read : index'.readBarrier = index.readBarrier
  pages : ∀ key, Retains keep (index.stamps.get key) (index'.stamps.get key)

variable {plan : VersionPage V → VersionPageRetention}

lemma retainPages_prunes (h : index.WF) (env : HistoryEnv) {keep : VersionStamp → Bool}
    (hdrop : ∀ p ∈ index.stamps.segments, plan p = .drop →
      ∀ e ∈ p.entries.entries, keep e.2 = false) :
    Prunes index keep (index.retainPages env keep plan) := by
  obtain ⟨hwf, hretains⟩ := VersionPages.WF.retain h (env.shared 0) keep hdrop
  unfold retainPages
  dsimp only
  split
  · obtain ⟨hcharged, hget⟩ := VersionPages.WF.charge hwf
    exact ⟨hcharged, rfl, rfl, rfl, fun key => by
      show Retains keep _ (VersionPages.charge _ |>.get key)
      rw [hget]
      exact hretains key⟩
  · exact ⟨hwf, rfl, rfl, rfl, hretains⟩

lemma pruneByPlan_prunes (index : VersionIndex V) (h : index.WF) (env : HistoryEnv)
    {keep : VersionStamp → Bool} (hdrop : ∀ p ∈ index.stamps.segments, plan p = .drop →
      ∀ e ∈ p.entries.entries, keep e.2 = false) :
    Prunes index keep (index.pruneByPlan env keep plan) := by
  unfold pruneByPlan
  split
  · exact retainPages_prunes h env hdrop
  dsimp only
  split
  · refine retainPages_prunes h env fun p hp haction => hdrop p hp ?_
    split at haction
    · cases haction
    · exact haction
  · exact ⟨h, rfl, rfl, rfl, fun _ => .inl rfl⟩

lemma pruneMap_prunes (index : VersionIndex V) (h : index.WF) (env : HistoryEnv)
    {keep : VersionStamp → Bool}
    (hfloor : ∀ f, floor = some f → ∀ s : VersionStamp, s.commitEpoch < f → keep s = false) :
    Prunes index keep (index.pruneMap env keep floor) := by
  obtain ⟨hwf, hget⟩ := VersionPages.WF.map_pages h (cacheBounds_entries floor)
    (cacheBounds_bytes floor) fun _ hp => hp.cacheBounds floor
  unfold pruneMap
  dsimp only
  split
  · exact ⟨hwf, rfl, rfl, rfl, fun key => .inl (hget key)⟩
  have hprunes := pruneByPlan_prunes { index with stamps := { index.stamps with
      segments := index.stamps.segments.map (cacheBounds floor) } } hwf env
    fun p hp haction => not_keep_of_drop (hwf.bounds p hp) hfloor haction
  refine ⟨hprunes.wf, hprunes.floor, hprunes.database, hprunes.read, fun key => ?_⟩
  rw [← hget key]
  exact hprunes.pages key

/-- Pruning raises the floor, and drops only stamps of epochs below the oldest reader. -/
structure Reclaims (index : VersionIndex V) (oldestReaderEpoch : ℕ) (index' : VersionIndex V) :
    Prop where
  wf : index'.WF
  floor : index'.historyFloor = max index.historyFloor (oldestReaderEpoch - 1)
  stamp : ∀ key, index'.stamp key = index.stamp key ∨
    index'.stamp key = none ∧ ∃ s, index.stamp key = some s ∧ s.commitEpoch < oldestReaderEpoch

omit [Std.TransOrd V] in
lemma reclaims_of_prunes {keep : VersionStamp → Bool}
    (hkeep : ∀ s, keep s = false → s.commitEpoch < oldestReaderEpoch)
    (h : Prunes (index.raiseFloor keep oldestReaderEpoch) keep index') :
    Reclaims index oldestReaderEpoch index' := by
  refine ⟨h.wf, h.floor, fun key => ?_⟩
  have hdatabase : Retains keep index.databaseBarrier index'.databaseBarrier :=
    h.database ▸ retains_filter keep _
  have hread : Retains keep index.readBarrier index'.readBarrier := h.read ▸ retains_filter keep _
  rcases stamp_rel hdatabase hread h.pages key with hsame | ⟨hnone, s, hs, hks⟩
  · exact .inl hsame
  · exact .inr ⟨hnone, s, hs, hkeep s hks⟩

lemma pruneBefore_reclaims (h : index.WF) (env : HistoryEnv) (oldestReaderEpoch : ℕ) :
    Reclaims index oldestReaderEpoch (index.pruneBefore env oldestReaderEpoch) := by
  refine reclaims_of_prunes (fun s hs => ?_) (pruneMap_prunes (index.raiseFloor _ _) h env fun f hf s hs => ?_)
  · simpa using hs
  · cases hf
    simpa using hs

lemma pruneTombstonesBefore_reclaims (h : index.WF) (env : HistoryEnv) (oldestReaderEpoch : ℕ) :
    Reclaims index oldestReaderEpoch (index.pruneTombstonesBefore env oldestReaderEpoch) := by
  refine reclaims_of_prunes (fun s hs => ?_) (pruneMap_prunes (index.raiseFloor _ _) h env fun f hf => ?_)
  swap
  · cases hf
  simp only [ne_eq, Bool.or_eq_false_iff, decide_eq_false_iff_not, not_le] at hs
  exact hs.2

end VersionIndex

end HawDB
