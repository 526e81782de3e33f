import HawDB.RowOverlay
import HawDB.OrderedMap

/-!
# The overlay merge gives the newest versions

One call of `next_projected` takes the least key from all sources, gives the entry of the greatest
epoch and leaves the greater keys (`nextProjected_spec`). A whole run gives the newest
versions, or finds two of one epoch (`collect_spec`, `exists_collect_iff`).
-/

namespace HawDB

open List Std.TransCmp
open Std (OrientedCmp ReflCmp ReflOrd TransCmp TransOrd)

variable {K V : Type*} [Ord K]

section

variable [TransOrd K]

lemma not_compare_self_lt {a : K} (h : compare a a = .lt) : False :=
  nomatch h.symm.trans (ReflOrd.compare_self : compare a a = .eq)

namespace StreamingOverlayHead

lemma cmp_swap (a b : StreamingOverlayHead K V) : (a.cmp b).swap = b.cmp a := by
  simp only [cmp, Ordering.swap_then, ← OrientedCmp.eq_swap]

/-- A head comes before another: its key is not greater, and at one key its epoch is not. -/
def Before (a b : StreamingOverlayHead K V) : Prop :=
  (compare a.key b.key).isLE ∧ (compare a.key b.key = .eq → a.epoch ≤ b.epoch)

lemma before_of_cmp_ne_lt {a b : StreamingOverlayHead K V} (h : a.cmp b ≠ .lt) : a.Before b := by
  rw [cmp] at h
  rcases hk : compare b.key a.key with _ | _ | _
  · simp [hk] at h
  · rw [hk] at h
    refine ⟨by rw [compare_swap_eq.1 hk]; rfl, fun _ => ?_⟩
    by_contra hlt
    have : compare b.epoch a.epoch = .lt := compare_lt_iff_lt.2 (by omega)
    simp [this] at h
  · have := compare_gt_iff.1 hk
    exact ⟨by rw [this]; rfl, fun heq => by rw [this] at heq; nomatch heq⟩

lemma Before.trans {a b c : StreamingOverlayHead K V} (hab : a.Before b) (hbc : b.Before c) :
    a.Before c := by
  refine ⟨isLE_trans hab.1 hbc.1, fun heq => ?_⟩
  have hca : (compare c.key a.key).isLE := by rw [compare_swap_eq.1 heq]; rfl
  have hab' := OrientedCmp.isLE_antisymm hab.1 (isLE_trans hbc.1 hca)
  have hbc' := OrientedCmp.isLE_antisymm hbc.1 (isLE_trans hca hab.1)
  exact (hab.2 hab').trans (hbc.2 hbc')

end StreamingOverlayHead

lemma popGreatest_before : ∀ {heap rest}
    {greatest : StreamingOverlayHead K V}, popGreatest heap = some (greatest, rest) →
      ∀ head ∈ rest, greatest.Before head
  | [], _, _, h => by cases h
  | head :: heap, rest, greatest, h => by
    rw [popGreatest] at h
    split at h
    · cases h
      exact fun _ hmem => by cases hmem
    rename_i m others hsome
    have ih := popGreatest_before hsome
    split_ifs at h with hlt <;> obtain ⟨rfl, rfl⟩ := Prod.mk.inj (Option.some.inj h)
    · intro other hother
      rcases mem_cons.1 hother with rfl | hother
      · apply StreamingOverlayHead.before_of_cmp_ne_lt
        rw [← StreamingOverlayHead.cmp_swap, hlt]
        decide
      · exact ih other hother
    · have hm := StreamingOverlayHead.before_of_cmp_ne_lt hlt
      intro other hother
      rcases mem_cons.1 hother with rfl | hother
      · exact hm
      · exact hm.trans (ih other hother)

end

namespace StreamingOverlayCursor

variable {cursor next : StreamingOverlayCursor K V} {source : ℕ} {deferred : List ℕ}

/-- The entries of a source that are not buffered yet. -/
def rest (cursor : StreamingOverlayCursor K V) (source : ℕ) : List (OverlayEntry K V) :=
  cursor.sources[source]?.getD []

def Holds (cursor : StreamingOverlayCursor K V) (source : ℕ) (entry : OverlayEntry K V) : Prop :=
  (∃ head ∈ cursor.heap, head.source = source ∧ head.toOverlayEntry = entry) ∨
    entry ∈ cursor.rest source

/-- What no step of the merge changes. -/
structure SameFrame (cursor next : StreamingOverlayCursor K V) : Prop where
  base : next.baseCommitEpoch = cursor.baseCommitEpoch
  visible : next.visibleCommitEpoch = cursor.visibleCommitEpoch
  length : next.sources.length = cursor.sources.length
  initialized : next.initialized = cursor.initialized

omit [Ord K] in
lemma SameFrame.refl (cursor : StreamingOverlayCursor K V) : cursor.SameFrame cursor :=
  ⟨rfl, rfl, rfl, rfl⟩

omit [Ord K] in
lemma SameFrame.trans {a b c : StreamingOverlayCursor K V} (hab : a.SameFrame b)
    (hbc : b.SameFrame c) : a.SameFrame c :=
  ⟨hbc.base.trans hab.base, hbc.visible.trans hab.visible, hbc.length.trans hab.length,
    hbc.initialized.trans hab.initialized⟩

omit [Ord K] in
lemma sameFrame_withHeap (cursor : StreamingOverlayCursor K V)
    (heap : List (StreamingOverlayHead K V)) : cursor.SameFrame (cursor.withHeap heap) :=
  ⟨rfl, rfl, rfl, rfl⟩

/-- Every source is sorted, and its least entry is in the heap, the deferred sources apart. -/
structure Merging (cursor : StreamingOverlayCursor K V) (deferred : List ℕ) : Prop where
  sorted : ∀ i, (cursor.rest i).Pairwise fun a b => compare a.key b.key = .lt
  ahead : ∀ head ∈ cursor.heap, ∀ e ∈ cursor.rest head.source, compare head.key e.key = .lt
  nodup : (cursor.heap.map (·.source)).Nodup
  inRange : ∀ head ∈ cursor.heap, head.source < cursor.sources.length
  covered : ∀ i ∉ deferred, cursor.rest i ≠ [] → ∃ head ∈ cursor.heap, head.source = i

lemma Merging.withHeap {head : StreamingOverlayHead K V}
    {heap : List (StreamingOverlayHead K V)} (h : cursor.Merging deferred)
    (hpop : popGreatest cursor.heap = some (head, heap)) :
    (cursor.withHeap heap).Merging (head.source :: deferred) ∧
      ∀ other ∈ heap, other.source ≠ head.source := by
  have hperm := popGreatest_perm hpop
  have hmem : ∀ other ∈ heap, other ∈ cursor.heap := fun other hother =>
    hperm.mem_iff.2 (mem_cons_of_mem _ hother)
  have hnodup := (hperm.map (·.source)).nodup_iff.1 h.nodup
  rw [map_cons, nodup_cons] at hnodup
  refine ⟨⟨h.sorted, fun other hother => h.ahead other (hmem other hother), hnodup.2,
    fun other hother => h.inRange other (hmem other hother), fun i hi hne => ?_⟩,
    fun other hother heq => hnodup.1 (mem_map.2 ⟨other, hother, heq⟩)⟩
  obtain ⟨other, hother, rfl⟩ := h.covered i (fun hd => hi (mem_cons_of_mem _ hd)) hne
  rcases mem_cons.1 (hperm.mem_iff.1 hother) with rfl | hother
  · exact absurd mem_cons_self hi
  · exact ⟨other, hother, rfl⟩

variable {i : ℕ} {e : OverlayEntry K V}

lemma holds_withHeap {head : StreamingOverlayHead K V} {heap : List (StreamingOverlayHead K V)}
    (hpop : popGreatest cursor.heap = some (head, heap)) :
    cursor.Holds i e ↔
      (i = head.source ∧ e = head.toOverlayEntry) ∨ (cursor.withHeap heap).Holds i e := by
  have hperm := popGreatest_perm hpop
  constructor
  · rintro (⟨other, hother, rfl, rfl⟩ | he)
    · rcases mem_cons.1 (hperm.mem_iff.1 hother) with rfl | hother
      · exact .inl ⟨rfl, rfl⟩
      · exact .inr (.inl ⟨other, hother, rfl, rfl⟩)
    · exact .inr (.inr he)
  · rintro (⟨rfl, rfl⟩ | ⟨other, hother, rfl, rfl⟩ | he)
    · exact .inl ⟨head, hperm.mem_iff.2 mem_cons_self, rfl, rfl⟩
    · exact .inl ⟨other, hperm.mem_iff.2 (mem_cons_of_mem _ hother), rfl, rfl⟩
    · exact .inr he

omit [Ord K] in
lemma rest_set {tail : List (OverlayEntry K V)}
    (hs : cursor.sources[source]? = some (entry :: tail)) (i : ℕ) :
    (cursor.sources.set source tail)[i]?.getD [] = if i = source then tail else cursor.rest i := by
  have hlt := (List.getElem?_eq_some_iff.1 hs).1
  rw [List.getElem?_set]
  by_cases hi : source = i
  · rw [if_pos hi, if_pos hlt, if_pos hi.symm]
    rfl
  · rw [if_neg hi, if_neg (Ne.symm hi)]
    rfl

/-- Advancing a deferred source moves entries, adds none and loses none. -/
theorem Merging.advanceSource (h : cursor.Merging (source :: deferred))
    (hfree : ∀ head ∈ cursor.heap, head.source ≠ source)
    (hadvance : cursor.advanceSource source = .ok next) :
    next.Merging deferred ∧ (∀ i e, next.Holds i e ↔ cursor.Holds i e) ∧
      (∀ i ≠ source, next.rest i = cursor.rest i) ∧
      ∀ head ∈ next.heap, head ∈ cursor.heap ∨
        head.source = source ∧ head.toOverlayEntry ∈ cursor.rest source := by
  rcases advanceSource_eq_ok.1 hadvance with ⟨hs, rfl⟩ | ⟨entry, tail, hs, -, -, rfl⟩
  · refine ⟨⟨h.sorted, h.ahead, h.nodup, h.inRange, fun i hi hne => ?_⟩, fun _ _ => .rfl,
      fun _ _ => rfl, fun head hhead => .inl hhead⟩
    refine h.covered i (fun hd => ?_) hne
    rcases mem_cons.1 hd with rfl | hd
    · exact hne (by rw [rest, hs]; rfl)
    · exact hi hd
  · have hlt := (List.getElem?_eq_some_iff.1 hs).1
    have hrest : cursor.rest source = entry :: tail := by rw [rest, hs]; rfl
    have hsorted := h.sorted source
    rw [hrest, pairwise_cons] at hsorted
    refine ⟨⟨fun i => ?_, ?_, ?_, ?_, fun i hi hne => ?_⟩, fun i e => ?_, fun i hi => ?_, ?_⟩
    · rw [rest, rest_set hs]
      split_ifs
      · exact hsorted.2
      · exact h.sorted i
    · intro head hhead e he
      rw [rest, rest_set hs] at he
      rcases mem_cons.1 hhead with rfl | hhead
      · rw [if_pos rfl] at he
        exact hsorted.1 e he
      · rw [if_neg (hfree head hhead)] at he
        exact h.ahead head hhead e he
    · refine nodup_cons.2 ⟨fun hmem => ?_, h.nodup⟩
      obtain ⟨head, hhead, heq⟩ := mem_map.1 hmem
      exact hfree head hhead heq
    · intro head hhead
      rw [length_set]
      rcases mem_cons.1 hhead with rfl | hhead
      · exact hlt
      · exact h.inRange head hhead
    · by_cases hsource : i = source
      · exact ⟨_, mem_cons_self, hsource.symm⟩
      · rw [rest, rest_set hs, if_neg hsource] at hne
        obtain ⟨head, hhead, rfl⟩ := h.covered i (by simp [hsource, hi]) hne
        exact ⟨head, mem_cons_of_mem _ hhead, rfl⟩
    · simp only [Holds, exists_mem_cons_iff]
      rw [rest, rest_set hs]
      by_cases hsource : i = source
      · subst hsource
        rw [if_pos rfl, hrest, mem_cons]
        tauto
      · rw [if_neg hsource, or_congr_left (or_iff_right fun heq => hsource heq.1.symm)]
    · rw [rest, rest_set hs, if_neg hi]
    · intro head hhead
      rcases mem_cons.1 hhead with rfl | hhead
      · exact .inr ⟨rfl, by rw [hrest]; exact mem_cons_self⟩
      · exact .inl hhead

section

variable [TransOrd K] {selected newest : StreamingOverlayHead K V} {deferredSource : ℕ}

/-- The state of `next_projected` when the selected head is out of the heap and its source waits:
the selected head comes before everything else. -/
structure Selecting (cursor : StreamingOverlayCursor K V) (selected : StreamingOverlayHead K V)
    (deferredSource : ℕ) : Prop where
  merging : cursor.Merging [deferredSource]
  free : ∀ head ∈ cursor.heap, head.source ≠ deferredSource
  before : ∀ head ∈ cursor.heap, selected.Before head
  ahead : ∀ e ∈ cursor.rest deferredSource, compare selected.key e.key = .lt

section

variable (h : cursor.Selecting selected deferredSource)

include h

lemma Selecting.lt_of_holds (hheap : ∀ head ∈ cursor.heap, compare selected.key head.key = .lt)
    (he : cursor.Holds i e) : compare selected.key e.key = .lt := by
  rcases he with ⟨head, hhead, -, rfl⟩ | he
  · exact hheap head hhead
  by_cases hi : i = deferredSource
  · exact h.ahead e (hi ▸ he)
  · obtain ⟨head, hhead, rfl⟩ := h.merging.covered i (by simpa using hi) (ne_nil_of_mem he)
    exact lt_trans (hheap head hhead) (h.merging.ahead head hhead e he)

lemma Selecting.le_of_holds (he : cursor.Holds i e) :
    compare selected.key e.key = .lt ∨ compare e.key selected.key = .eq := by
  rcases he with ⟨head, hhead, -, rfl⟩ | he
  · have hle := (h.before head hhead).1
    rcases hc : compare selected.key head.key with _ | _ | _
    · exact .inl rfl
    · exact .inr (compare_swap_eq.1 hc)
    · rw [hc] at hle
      cases hle
  · by_cases hi : i = deferredSource
    · exact .inl (h.ahead e (hi ▸ he))
    · obtain ⟨head, hhead, rfl⟩ := h.merging.covered i (by simpa using hi) (ne_nil_of_mem he)
      exact .inl (lt_of_isLE_of_lt (h.before head hhead).1
        (h.merging.ahead head hhead e he))

lemma Selecting.step {candidate : StreamingOverlayHead K V}
    {heap : List (StreamingOverlayHead K V)}
    (hpop : popGreatest cursor.heap = some (candidate, heap))
    (hkey : compare candidate.key selected.key = .eq)
    (hadvance : (cursor.withHeap heap).advanceSource candidate.source = .ok next) :
    next.Selecting candidate deferredSource ∧ selected.epoch ≤ candidate.epoch ∧
      (∀ i e, cursor.Holds i e ↔
        (i = candidate.source ∧ e = candidate.toOverlayEntry) ∨ next.Holds i e) ∧
      ∀ e, next.Holds candidate.source e → compare candidate.key e.key = .lt := by
  have hmem : candidate ∈ cursor.heap := (popGreatest_perm hpop).mem_iff.2 mem_cons_self
  have hsub : ∀ head ∈ heap, head ∈ cursor.heap := fun head hhead =>
    (popGreatest_perm hpop).mem_iff.2 (mem_cons_of_mem _ hhead)
  obtain ⟨hpopped, hfree⟩ := h.merging.withHeap hpop
  obtain ⟨hmerging, hholds, hrest, hheap⟩ := hpopped.advanceSource hfree hadvance
  have hsource : deferredSource ≠ candidate.source := (h.free candidate hmem).symm
  refine ⟨⟨hmerging, ?_, ?_, ?_⟩, (h.before candidate hmem).2 (compare_swap_eq.1 hkey),
    fun i e => ?_, fun e he => ?_⟩
  · intro head hhead
    rcases hheap head hhead with hhead | ⟨heq, -⟩
    · exact h.free head (hsub head hhead)
    · rw [heq]
      exact hsource.symm
  · intro head hhead
    rcases hheap head hhead with hhead | ⟨-, he⟩
    · exact popGreatest_before hpop head hhead
    · have hlt := h.merging.ahead candidate hmem _ he
      exact ⟨by rw [hlt]; rfl, fun heq => by rw [hlt] at heq; nomatch heq⟩
  · intro e he
    rw [hrest _ hsource] at he
    exact lt_of_eq_of_lt hkey (h.ahead e he)
  · rw [holds_withHeap hpop, hholds]
  · rcases (hholds _ _).1 he with ⟨head, hhead, heq, -⟩ | he
    · exact absurd heq (hfree head hhead)
    · exact h.merging.ahead candidate hmem e he

end

/-- What the loop of `next_projected` ends with: the greatest epoch of the selected key, and the
entries of greater keys. No two entries of the key have one epoch. -/
structure Selected (cursor : StreamingOverlayCursor K V) (selected : StreamingOverlayHead K V)
    (next : StreamingOverlayCursor K V) (newest : StreamingOverlayHead K V) : Prop where
  key : compare newest.key selected.key = .eq
  holds : newest = selected ∨ ∃ i, cursor.Holds i newest.toOverlayEntry
  epoch : selected.epoch ≤ newest.epoch
  remaining : ∀ i e, next.Holds i e ↔ cursor.Holds i e ∧ compare selected.key e.key = .lt
  newer : ∀ i e, cursor.Holds i e → compare e.key selected.key = .eq →
    selected.epoch < e.epoch ∧ e.epoch ≤ newest.epoch
  distinct : ∀ i j e e', cursor.Holds i e → cursor.Holds j e' →
    compare e.key selected.key = .eq → compare e'.key selected.key = .eq →
      e.epoch = e'.epoch → i = j

lemma Selecting.selected_self (h : cursor.Selecting selected deferredSource)
    (hheap : ∀ head ∈ cursor.heap, compare selected.key head.key = .lt) :
    Selected cursor selected cursor selected := by
  have hlt := fun i e (he : cursor.Holds i e) => h.lt_of_holds hheap he
  have hne : ∀ i e, cursor.Holds i e → compare e.key selected.key ≠ .eq := fun i e he =>
    compare_ne_eq_of_lt (hlt i e he)
  exact ⟨ReflCmp.compare_self, .inl rfl, le_rfl, fun i e => ⟨fun he => ⟨he, hlt i e he⟩, And.left⟩,
    fun i e he heq => absurd heq (hne i e he), fun i _ e _ he _ heq => absurd heq (hne i e he)⟩

lemma selectNewest_spec (h : cursor.Selecting selected deferredSource)
    (hselect : cursor.selectNewest selected = .ok (next, newest)) :
    next.Merging [deferredSource] ∧ (∀ head ∈ next.heap, head.source ≠ deferredSource) ∧
      Selected cursor selected next newest := by
  fun_induction selectNewest cursor selected with
  | case1 cursor selected hpop =>
    obtain ⟨rfl, rfl⟩ := Prod.mk.inj (Except.ok.inj hselect)
    have hheap := popGreatest_eq_none.1 hpop
    exact ⟨h.merging, h.free, h.selected_self fun head hhead => by rw [hheap] at hhead; cases hhead⟩
  | case2 => cases hselect
  | case3 => cases hselect
  | case4 cursor selected candidate heap hpop hkey hepoch advanced hadvance ih =>
    obtain ⟨hstep, hle, hholds, -⟩ := h.step hpop hkey hadvance
    have hlt : selected.epoch < candidate.epoch := lt_of_le_of_ne hle (Ne.symm hepoch)
    rw [dif_pos hlt] at ih
    rw [if_pos hlt] at hselect
    obtain ⟨hmerging, hfree, hnewest⟩ := ih hstep hselect
    have hkeys : ∀ e : OverlayEntry K V, compare e.key selected.key = .eq →
        compare e.key candidate.key = .eq := fun e he =>
      eq_trans he (compare_swap_eq.1 hkey)
    refine ⟨hmerging, hfree, ⟨eq_trans hnewest.key hkey, .inr ?_,
      hlt.le.trans hnewest.epoch, fun i e => ?_, fun i e he heq => ?_, ?_⟩⟩
    · rcases hnewest.holds with heq | ⟨i, hi⟩
      · exact ⟨candidate.source, (hholds _ _).2 (.inl ⟨rfl, by rw [heq]⟩)⟩
      · exact ⟨i, (hholds _ _).2 (.inr hi)⟩
    · rw [hnewest.remaining, hholds, ← congr_left hkey, or_and_right, or_iff_right]
      rintro ⟨⟨-, rfl⟩, hself⟩
      exact not_compare_self_lt hself
    · rcases (hholds i e).1 he with ⟨-, rfl⟩ | he
      · exact ⟨hlt, hnewest.epoch⟩
      · obtain ⟨hgt, hle'⟩ := hnewest.newer i e he (hkeys e heq)
        exact ⟨hlt.trans hgt, hle'⟩
    · intro i j e e' he he' heq heq' hepochs
      rcases (hholds i e).1 he with ⟨rfl, rfl⟩ | he <;>
        rcases (hholds j e').1 he' with ⟨rfl, rfl⟩ | he'
      · rfl
      · exact absurd hepochs (hnewest.newer j e' he' (hkeys e' heq')).1.ne
      · exact absurd hepochs (hnewest.newer i e he (hkeys e heq)).1.ne'
      · exact hnewest.distinct i j e e' he he' (hkeys e heq) (hkeys e' heq') hepochs
  | case5 cursor selected candidate heap hpop hkey =>
    obtain ⟨rfl, rfl⟩ := Prod.mk.inj (Except.ok.inj hselect)
    refine ⟨h.merging, h.free, h.selected_self fun head hhead => ?_⟩
    have hperm := popGreatest_perm hpop
    have hcandidate : compare selected.key candidate.key = .lt := by
      have hle := (h.before candidate (hperm.mem_iff.2 mem_cons_self)).1
      rcases hc : compare selected.key candidate.key with _ | _ | _
      · rfl
      · exact absurd (compare_swap_eq.1 hc) hkey
      · rw [hc] at hle
        cases hle
    rcases mem_cons.1 (hperm.mem_iff.1 hhead) with rfl | hhead
    · exact hcandidate
    · exact lt_of_lt_of_isLE hcandidate (popGreatest_before hpop head hhead).1

/-- The epochs of the entries still to be read are of the snapshot. -/
def Admitted (cursor : StreamingOverlayCursor K V) : Prop :=
  ∀ i e, cursor.Holds i e → cursor.baseCommitEpoch < e.epoch ∧ e.epoch ≤ cursor.visibleCommitEpoch

def Distinct (cursor : StreamingOverlayCursor K V) : Prop :=
  ∀ i j e e', cursor.Holds i e → cursor.Holds j e' → compare e.key e'.key = .eq →
    e.epoch = e'.epoch → i = j

omit [Ord K] [TransOrd K] in
lemma exists_advanceSource (hrange : source < cursor.sources.length)
    (hadmitted : cursor.Admitted) : ∃ next, cursor.advanceSource source = .ok next := by
  rcases hs : cursor.sources[source]? with _ | _ | ⟨entry, tail⟩
  · exact absurd (getElem?_eq_none_iff.1 hs) (by omega)
  · exact ⟨cursor, advanceSource_eq_ok.2 (.inl ⟨hs, rfl⟩)⟩
  · obtain ⟨hbase, hvisible⟩ := hadmitted source entry (.inr (by rw [rest, hs]; simp))
    exact ⟨_, advanceSource_eq_ok.2 (.inr ⟨entry, tail, hs, hbase, hvisible, rfl⟩)⟩

omit [Ord K] [TransOrd K] in
lemma sameFrame_advanceSource (hadvance : cursor.advanceSource source = .ok next) :
    cursor.SameFrame next := by
  rcases advanceSource_eq_ok.1 hadvance with ⟨-, rfl⟩ | ⟨entry, tail, -, -, -, rfl⟩
  · exact .refl _
  · exact ⟨rfl, rfl, length_set, rfl⟩

omit [Ord K] [TransOrd K] in
lemma Admitted.of_holds (h : cursor.Admitted) (hframe : cursor.SameFrame next)
    (hholds : ∀ i e, next.Holds i e → cursor.Holds i e) : next.Admitted := fun i e he => by
  rw [hframe.base, hframe.visible]
  exact h i e (hholds i e he)

omit [TransOrd K] in
lemma Distinct.of_holds (h : cursor.Distinct) (hholds : ∀ i e, next.Holds i e → cursor.Holds i e) :
    next.Distinct := fun i j e e' he he' => h i j e e' (hholds i e he) (hholds j e' he')

lemma exists_selectNewest (h : cursor.Selecting selected deferredSource)
    (hadmitted : cursor.Admitted) (hdistinct : cursor.Distinct)
    (hselected : ∀ i e, cursor.Holds i e → compare e.key selected.key = .eq →
      e.epoch ≠ selected.epoch) : ∃ result, cursor.selectNewest selected = .ok result := by
  fun_induction selectNewest cursor selected with
  | case1 => exact ⟨_, rfl⟩
  | case2 cursor selected candidate heap hpop hkey hepoch =>
    have hmem : candidate ∈ cursor.heap := (popGreatest_perm hpop).mem_iff.2 mem_cons_self
    exact absurd hepoch (hselected _ _ (.inl ⟨candidate, hmem, rfl, rfl⟩) hkey)
  | case3 cursor selected candidate heap hpop hkey hepoch error hadvance =>
    have hmem : candidate ∈ cursor.heap := (popGreatest_perm hpop).mem_iff.2 mem_cons_self
    have hpopped : (cursor.withHeap heap).Admitted :=
      hadmitted.of_holds (sameFrame_withHeap _ _) fun i e he => (holds_withHeap hpop).2 (.inr he)
    have hrange : candidate.source < (cursor.withHeap heap).sources.length :=
      h.merging.inRange candidate hmem
    obtain ⟨advanced, hok⟩ := exists_advanceSource hrange hpopped
    cases hadvance.symm.trans hok
  | case4 cursor selected candidate heap hpop hkey hepoch advanced hadvance ih =>
    obtain ⟨hstep, hle, hholds, hahead⟩ := h.step hpop hkey hadvance
    have hlt : selected.epoch < candidate.epoch := lt_of_le_of_ne hle (Ne.symm hepoch)
    rw [dif_pos hlt] at ih
    rw [if_pos hlt]
    have hsub : ∀ i e, advanced.Holds i e → cursor.Holds i e := fun i e he =>
      (hholds i e).2 (.inr he)
    have hframe := (sameFrame_withHeap cursor heap).trans (sameFrame_advanceSource hadvance)
    refine ih hstep (hadmitted.of_holds hframe hsub) (hdistinct.of_holds hsub)
      fun i e he heq hepochs => ?_
    have hcandidate : cursor.Holds candidate.source candidate.toOverlayEntry :=
      (hholds _ _).2 (.inl ⟨rfl, rfl⟩)
    obtain rfl := hdistinct i candidate.source e _ (hsub i e he) hcandidate heq hepochs
    exact compare_ne_eq_of_lt (hahead e he) heq
  | case5 => exact ⟨_, rfl⟩

end

section

variable {sources : List (List (OverlayEntry K V))} {base visible : ℕ}

/-- The cursor when `initialize` starts its loop. -/
def started (sources : List (List (OverlayEntry K V))) (base visible : ℕ) :
    StreamingOverlayCursor K V :=
  ⟨sources, [], true, base, visible⟩

omit [Ord K] in
lemma ensureInitialized_new : (new sources base visible).ensureInitialized =
    initializeLoop (range sources.length) (started sources base visible) := rfl

lemma merging_started (hsorted : ∀ l ∈ sources, l.Pairwise fun a b => compare a.key b.key = .lt) :
    (started sources base visible).Merging (range sources.length) := by
  refine ⟨fun i => ?_, nofun, nodup_nil, nofun, fun i hi hne => ?_⟩
  · rcases hi : sources[i]? with _ | l
    · simp [rest, started, hi]
    · simpa [rest, started, hi] using hsorted l (mem_of_getElem? hi)
  · simp only [mem_range, not_lt] at hi
    simp [rest, started, getElem?_eq_none hi] at hne

def HeldIn (sources : List (List (OverlayEntry K V))) (i : ℕ) (e : OverlayEntry K V) : Prop :=
  e ∈ sources[i]?.getD []

omit [Ord K] in
lemma holds_started (sources : List (List (OverlayEntry K V))) (base visible : ℕ) :
    (started sources base visible).Holds = HeldIn sources := by
  funext i e
  simp [Holds, started, rest, HeldIn]

lemma initializeLoop_spec : ∀ {waiting} {cursor next : StreamingOverlayCursor K V},
    waiting.Nodup → cursor.Merging waiting → (∀ head ∈ cursor.heap, head.source ∉ waiting) →
      initializeLoop waiting cursor = .ok next →
        next.Merging [] ∧ (∀ i e, next.Holds i e ↔ cursor.Holds i e) ∧ cursor.SameFrame next
  | [], cursor, next, _, h, _, hloop => by
    cases hloop
    exact ⟨h, fun _ _ => .rfl, .refl _⟩
  | source :: waiting, cursor, next, hnodup, h, hfree, hloop => by
    obtain ⟨advanced, hadvance, hrest⟩ := bind_eq_ok.1 hloop
    obtain ⟨hsource, hnodup⟩ := nodup_cons.1 hnodup
    obtain ⟨hmerging, hholds, -, hheap⟩ := h.advanceSource
      (fun head hhead heq => hfree head hhead (heq ▸ mem_cons_self)) hadvance
    obtain ⟨hfinal, hholds', hframe⟩ := initializeLoop_spec hnodup hmerging
      (fun head hhead hmem => by
        rcases hheap head hhead with hhead | ⟨heq, -⟩
        · exact hfree head hhead (mem_cons_of_mem _ hmem)
        · exact hsource (heq ▸ hmem)) hrest
    exact ⟨hfinal, fun i e => (hholds' i e).trans (hholds i e),
      (sameFrame_advanceSource hadvance).trans hframe⟩

lemma exists_initializeLoop : ∀ {waiting} {cursor : StreamingOverlayCursor K V},
    waiting.Nodup → cursor.Merging waiting → (∀ head ∈ cursor.heap, head.source ∉ waiting) →
      (∀ i ∈ waiting, i < cursor.sources.length) → cursor.Admitted →
        ∃ next, initializeLoop waiting cursor = .ok next
  | [], cursor, _, _, _, _, _ => ⟨cursor, rfl⟩
  | source :: waiting, cursor, hnodup, h, hfree, hrange, hadmitted => by
    obtain ⟨hsource, hnodup⟩ := nodup_cons.1 hnodup
    obtain ⟨advanced, hadvance⟩ := exists_advanceSource (hrange _ mem_cons_self) hadmitted
    obtain ⟨hmerging, hholds, -, hheap⟩ := h.advanceSource
      (fun head hhead heq => hfree head hhead (heq ▸ mem_cons_self)) hadvance
    have hframe := sameFrame_advanceSource hadvance
    obtain ⟨next, hnext⟩ := exists_initializeLoop hnodup hmerging
      (fun head hhead hmem => by
        rcases hheap head hhead with hhead | ⟨heq, -⟩
        · exact hfree head hhead (mem_cons_of_mem _ hmem)
        · exact hsource (heq ▸ hmem))
      (fun i hi => hframe.length ▸ hrange i (mem_cons_of_mem _ hi))
      (hadmitted.of_holds hframe fun i e => (hholds i e).1)
    exact ⟨next, by rw [initializeLoop, hadvance, ok_bind, hnext]⟩

end

section

variable [TransOrd K] {selected newest : StreamingOverlayHead K V}
  {heap : List (StreamingOverlayHead K V)} {row : K × V} {rows : List (K × V)}

omit [TransOrd K] in
lemma sameFrame_selectNewest (h : cursor.selectNewest selected = .ok (next, newest)) :
    cursor.SameFrame next := by
  fun_induction selectNewest cursor selected with
  | case1 | case5 =>
    cases h
    exact .refl _
  | case2 | case3 => cases h
  | case4 cursor selected candidate heap hpop hkey hepoch advanced hadvance ih =>
    have hframe := (sameFrame_withHeap cursor heap).trans (sameFrame_advanceSource hadvance)
    exact hframe.trans (ih h)

lemma Merging.selecting (h : cursor.Merging [])
    (hpop : popGreatest cursor.heap = some (selected, heap)) :
    (cursor.withHeap heap).Selecting selected selected.source := by
  obtain ⟨hmerging, hfree⟩ := h.withHeap hpop
  exact ⟨hmerging, hfree, popGreatest_before hpop,
    h.ahead selected ((popGreatest_perm hpop).mem_iff.2 mem_cons_self)⟩

/-- The row a call of `next_projected` gives: the newest entry of the least key. -/
structure IsNext (cursor : StreamingOverlayCursor K V) (e : OverlayEntry K V)
    (next : StreamingOverlayCursor K V) : Prop where
  holds : ∃ i, cursor.Holds i e
  newest : ∀ j e', cursor.Holds j e' → compare e'.key e.key = .eq → e'.epoch ≤ e.epoch
  least : ∀ j e', cursor.Holds j e' → compare e.key e'.key = .lt ∨ compare e'.key e.key = .eq
  remaining : ∀ j e', next.Holds j e' ↔ cursor.Holds j e' ∧ compare e.key e'.key = .lt
  distinct : ∀ i j e₁ e₂, cursor.Holds i e₁ → cursor.Holds j e₂ → compare e₁.key e.key = .eq →
    compare e₂.key e.key = .eq → e₁.epoch = e₂.epoch → i = j

lemma nextProjected_spec (hready : cursor.initialized) (h : cursor.Merging [])
    (hnext : cursor.nextProjected = .ok (some row, next)) :
    next.Merging [] ∧ cursor.SameFrame next ∧
      ∃ e, cursor.IsNext e next ∧ row = (e.key, e.value) := by
  obtain ⟨ready, selected, heap, advanced, newest, hinit, hpop, hselect, hfinal, rfl⟩ :=
    nextProjected_eq_ok_some.1 hnext
  rw [ensureInitialized, if_pos hready] at hinit
  cases hinit
  have hselecting := h.selecting hpop
  obtain ⟨hmerging, hfree, hselected⟩ := selectNewest_spec hselecting hselect
  obtain ⟨hnextMerging, hholds, -, -⟩ := hmerging.advanceSource hfree hfinal
  have hframe := (sameFrame_withHeap cursor heap).trans (sameFrame_selectNewest hselect)
  have hself : cursor.Holds selected.source selected.toOverlayEntry :=
    (holds_withHeap hpop).2 (.inl ⟨rfl, rfl⟩)
  have hkeys : ∀ e : OverlayEntry K V, compare e.key newest.key = .eq →
      compare e.key selected.key = .eq := fun e he => eq_trans he hselected.key
  refine ⟨hnextMerging, hframe.trans (sameFrame_advanceSource hfinal), newest.toOverlayEntry, ⟨?_, ?_, ?_, ?_, ?_⟩, rfl⟩
  · rcases hselected.holds with rfl | ⟨i, hi⟩
    · exact ⟨_, hself⟩
    · exact ⟨i, (holds_withHeap hpop).2 (.inr hi)⟩
  · intro j e' he' heq
    rcases (holds_withHeap hpop).1 he' with ⟨-, rfl⟩ | he'
    · exact hselected.epoch
    · exact (hselected.newer j e' he' (hkeys e' heq)).2
  · intro j e' he'
    rcases (holds_withHeap hpop).1 he' with ⟨-, rfl⟩ | he'
    · exact .inr (compare_swap_eq.1 hselected.key)
    · refine (hselecting.le_of_holds he').imp (fun hlt => ?_) fun heq => ?_
      · exact lt_of_eq_of_lt hselected.key hlt
      · exact eq_trans heq (compare_swap_eq.1 hselected.key)
  · intro j e'
    rw [hholds, hselected.remaining, holds_withHeap hpop, congr_left hselected.key,
      or_and_right, or_iff_right]
    rintro ⟨⟨-, rfl⟩, hlt⟩
    exact not_compare_self_lt hlt
  · intro i j e₁ e₂ he₁ he₂ heq₁ heq₂ hepochs
    rcases (holds_withHeap hpop).1 he₁ with ⟨rfl, rfl⟩ | he₁ <;>
      rcases (holds_withHeap hpop).1 he₂ with ⟨rfl, rfl⟩ | he₂
    · rfl
    · exact absurd hepochs (hselected.newer j e₂ he₂ (hkeys e₂ heq₂)).1.ne
    · exact absurd hepochs (hselected.newer i e₁ he₁ (hkeys e₁ heq₁)).1.ne'
    · exact hselected.distinct i j e₁ e₂ he₁ he₂ (hkeys e₁ heq₁) (hkeys e₂ heq₂) hepochs

lemma exists_nextProjected (hready : cursor.initialized) (h : cursor.Merging [])
    (hadmitted : cursor.Admitted) (hdistinct : cursor.Distinct) :
    ∃ result, cursor.nextProjected = .ok result := by
  have hinit : cursor.ensureInitialized = .ok cursor := by rw [ensureInitialized, if_pos hready]
  rcases hpop : popGreatest cursor.heap with _ | ⟨selected, heap⟩
  · exact ⟨_, nextProjected_eq_ok_none.2 ⟨hinit, popGreatest_eq_none.1 hpop⟩⟩
  have hselecting := h.selecting hpop
  have hsub : ∀ i e, (cursor.withHeap heap).Holds i e → cursor.Holds i e := fun i e he =>
    (holds_withHeap hpop).2 (.inr he)
  have hself : cursor.Holds selected.source selected.toOverlayEntry :=
    (holds_withHeap hpop).2 (.inl ⟨rfl, rfl⟩)
  have hmem : selected ∈ cursor.heap := (popGreatest_perm hpop).mem_iff.2 mem_cons_self
  obtain ⟨⟨advanced, newest⟩, hselect⟩ := exists_selectNewest hselecting
    (hadmitted.of_holds (sameFrame_withHeap _ _) hsub) (hdistinct.of_holds hsub) fun i e he heq hepochs => by
      obtain rfl := hdistinct i _ e _ (hsub i e he) hself heq hepochs
      rcases he with ⟨head, hhead, hsource, -⟩ | he
      · exact hselecting.free head hhead hsource
      · exact compare_ne_eq_of_lt (hselecting.ahead e he) heq
  obtain ⟨hmerging, hfree, hselected⟩ := selectNewest_spec hselecting hselect
  have hframe := (sameFrame_withHeap cursor heap).trans (sameFrame_selectNewest hselect)
  have hadvanced : advanced.Admitted := hadmitted.of_holds hframe fun i e he =>
    hsub i e ((hselected.remaining i e).1 he).1
  obtain ⟨next, hfinal⟩ :=
    exists_advanceSource (hframe.length ▸ h.inRange selected hmem) hadvanced
  exact ⟨_, nextProjected_eq_ok_some.2
    ⟨cursor, selected, heap, advanced, newest, hinit, hpop, hselect, hfinal, rfl⟩⟩

/-- A list of rows is the newest version of what is held: every key once, ascending, with the
value of its greatest epoch. -/
structure IsNewest (held : ℕ → OverlayEntry K V → Prop) (rows : List (K × V)) : Prop where
  sorted : rows.Pairwise fun a b => compare a.1 b.1 = .lt
  sound : ∀ row ∈ rows, ∃ i e, held i e ∧ row = (e.key, e.value) ∧
    ∀ j e', held j e' → compare e'.key e.key = .eq → e'.epoch ≤ e.epoch
  complete : ∀ i e, held i e → ∃ row ∈ rows, compare row.1 e.key = .eq

omit [TransOrd K] in
lemma Merging.not_holds (h : cursor.Merging []) (hheap : cursor.heap = []) (i : ℕ)
    (e : OverlayEntry K V) : ¬ cursor.Holds i e := by
  rintro (⟨head, hhead, -⟩ | he)
  · rw [hheap] at hhead
    cases hhead
  · obtain ⟨head, hhead, -⟩ := h.covered i not_mem_nil (ne_nil_of_mem he)
    rw [hheap] at hhead
    cases hhead

lemma IsNext.isNewest (h : cursor.IsNext e next) (hrows : IsNewest next.Holds rows) :
    IsNewest cursor.Holds ((e.key, e.value) :: rows) := by
  have hlt : ∀ row ∈ rows, compare e.key row.1 = .lt := fun row hrow => by
    obtain ⟨i, e', he', rfl, -⟩ := hrows.sound row hrow
    exact ((h.remaining i e').1 he').2
  refine ⟨pairwise_cons.2 ⟨hlt, hrows.sorted⟩, fun row hrow => ?_, fun i e' he' => ?_⟩
  · rcases mem_cons.1 hrow with rfl | hrow
    · obtain ⟨i, hi⟩ := h.holds
      exact ⟨i, e, hi, rfl, h.newest⟩
    · obtain ⟨i, e', he', rfl, hnewest⟩ := hrows.sound row hrow
      obtain ⟨hholds, hgt⟩ := (h.remaining i e').1 he'
      refine ⟨i, e', hholds, rfl, fun j e'' he'' heq => hnewest j e'' ?_ heq⟩
      exact (h.remaining j e'').2 ⟨he'', lt_of_lt_of_eq hgt (compare_swap_eq.1 heq)⟩
  · rcases h.least i e' he' with hgt | heq
    · obtain ⟨row, hrow, heq⟩ := hrows.complete i e' ((h.remaining i e').2 ⟨he', hgt⟩)
      exact ⟨row, mem_cons_of_mem _ hrow, heq⟩
    · exact ⟨_, mem_cons_self, compare_swap_eq.1 heq⟩

lemma IsNext.distinct_cons (h : cursor.IsNext e next) (hdistinct : next.Distinct) :
    cursor.Distinct := by
  intro i j e₁ e₂ he₁ he₂ hkeys hepochs
  rcases h.least i e₁ he₁ with hgt | heq
  · refine hdistinct i j e₁ e₂ ((h.remaining i e₁).2 ⟨he₁, hgt⟩) ?_ hkeys hepochs
    exact (h.remaining j e₂).2 ⟨he₂, lt_of_lt_of_eq hgt hkeys⟩
  · exact h.distinct i j e₁ e₂ he₁ he₂ heq (eq_trans (compare_swap_eq.1 hkeys) heq) hepochs

lemma collect_spec (hready : cursor.initialized) (h : cursor.Merging [])
    (hcollect : cursor.collect = .ok rows) : IsNewest cursor.Holds rows ∧ cursor.Distinct := by
  fun_induction collect cursor generalizing rows with
  | case1 => cases hcollect
  | case2 cursor next hnext =>
    cases hcollect
    obtain ⟨hinit, hheap⟩ := nextProjected_eq_ok_none.1 hnext
    rw [ensureInitialized, if_pos hready] at hinit
    cases hinit
    have hnone := h.not_holds hheap
    exact ⟨⟨.nil, by simp, fun i e he => absurd he (hnone i e)⟩,
      fun i _ e _ he => absurd he (hnone i e)⟩
  | case3 => cases hcollect
  | case4 cursor row next hnext rest hrest ih =>
    cases hcollect
    obtain ⟨hmerging, hframe, e, hisNext, rfl⟩ := nextProjected_spec hready h hnext
    obtain ⟨hnewest, hdistinct⟩ := ih (hframe.initialized.trans hready) hmerging hrest
    exact ⟨hisNext.isNewest hnewest, hisNext.distinct_cons hdistinct⟩

lemma exists_collect (hready : cursor.initialized) (h : cursor.Merging [])
    (hadmitted : cursor.Admitted) (hdistinct : cursor.Distinct) :
    ∃ rows, cursor.collect = .ok rows := by
  fun_induction collect cursor with
  | case1 cursor error hnext =>
    obtain ⟨result, hresult⟩ := exists_nextProjected hready h hadmitted hdistinct
    cases hnext.symm.trans hresult
  | case2 => exact ⟨[], rfl⟩
  | case3 cursor row next hnext error herror ih =>
    obtain ⟨hmerging, hframe, e, hisNext, rfl⟩ := nextProjected_spec hready h hnext
    have hsub : ∀ i e', next.Holds i e' → cursor.Holds i e' := fun i e' he' =>
      ((hisNext.remaining i e').1 he').1
    obtain ⟨rows, hrows⟩ := ih (hframe.initialized.trans hready) hmerging
      (hadmitted.of_holds hframe hsub) (hdistinct.of_holds hsub)
    cases herror.symm.trans hrows
  | case4 => exact ⟨_, rfl⟩

omit [TransOrd K] in
lemma collect_eq (cursor : StreamingOverlayCursor K V) : cursor.collect =
    cursor.nextProjected >>= fun result => match result with
      | (none, _) => .ok []
      | (some row, next) => next.collect.map (row :: ·) := by
  rw [collect]
  split <;> rename_i h <;> rw [h]
  · rfl
  · rfl
  · rw [ok_bind]
    dsimp only
    rcases StreamingOverlayCursor.collect _ with _ | _ <;> rfl

omit [TransOrd K] in
/-- The first call buffers the heads; after it the merge runs on. -/
theorem collect_of_ensureInitialized (hinit : cursor.ensureInitialized = .ok next)
    (hready : next.initialized) : cursor.collect = next.collect := by
  rw [collect_eq, collect_eq next, nextProjected, nextProjected, hinit, ensureInitialized,
    if_pos hready]

variable {sources : List (List (OverlayEntry K V))}

/-- Sources in ascending key order. -/
def SortedSources (sources : List (List (OverlayEntry K V))) : Prop :=
  ∀ l ∈ sources, l.Pairwise fun a b => compare a.key b.key = .lt

/-- No two sources hold one key at one epoch. -/
def DistinctVersions (sources : List (List (OverlayEntry K V))) : Prop :=
  ∀ i j e e', HeldIn sources i e → HeldIn sources j e' → compare e.key e'.key = .eq →
    e.epoch = e'.epoch → i = j

omit [TransOrd K] in
lemma initializeLoop_started (hsorted : SortedSources sources)
    (hinit : initializeLoop (range sources.length) (started sources base visible) = .ok next) :
    next.initialized = true ∧ next.Merging [] ∧ next.Holds = HeldIn sources ∧
      (started sources base visible).SameFrame next := by
  obtain ⟨hmerging, hholds, hframe⟩ := initializeLoop_spec nodup_range
    (merging_started hsorted) nofun hinit
  refine ⟨hframe.initialized, hmerging, ?_, hframe⟩
  rw [← holds_started sources base visible]
  exact funext fun i => funext fun e => propext (hholds i e)

lemma collect_new_spec (hsorted : SortedSources sources)
    (hcollect : (new sources base visible).collect = .ok rows) :
    IsNewest (HeldIn sources) rows ∧ DistinctVersions sources := by
  rcases hinit : (new sources base visible).ensureInitialized with error | ready
  · rw [collect_eq, nextProjected, hinit] at hcollect
    cases hcollect
  obtain ⟨hready, hmerging, hholds, -⟩ := initializeLoop_started hsorted hinit
  rw [collect_of_ensureInitialized hinit hready] at hcollect
  obtain ⟨hnewest, hdistinct⟩ := collect_spec hready hmerging hcollect
  rw [Distinct, hholds] at hdistinct
  rw [hholds] at hnewest
  exact ⟨hnewest, hdistinct⟩

lemma exists_collect_new (hsorted : SortedSources sources)
    (hadmitted : ∀ i e, HeldIn sources i e → base < e.epoch ∧ e.epoch ≤ visible)
    (hdistinct : DistinctVersions sources) :
    ∃ rows, (new sources base visible).collect = .ok rows := by
  have hstarted : (started sources base visible).Admitted := fun i e he =>
    hadmitted i e (holds_started sources base visible ▸ he)
  obtain ⟨ready, hinit⟩ := exists_initializeLoop nodup_range (merging_started hsorted)
    nofun (fun i hi => mem_range.1 hi) hstarted
  obtain ⟨hready, hmerging, hholds, hframe⟩ := initializeLoop_started hsorted hinit
  rw [collect_of_ensureInitialized (ensureInitialized_new.trans hinit) hready]
  refine exists_collect hready hmerging (hstarted.of_holds hframe fun i e he => ?_) ?_
  · rw [holds_started, ← hholds]
    exact he
  · rw [Distinct, hholds]
    exact hdistinct

omit [Ord K] [TransOrd K] in
lemma heldIn_iff : HeldIn sources i e ↔ ∃ l, sources[i]? = some l ∧ e ∈ l := by
  rw [HeldIn]
  rcases sources[i]? with _ | l <;> simp

lemma distinctVersions_iff : DistinctVersions sources ↔ sources.Pairwise fun l m =>
    ∀ e ∈ l, ∀ e' ∈ m, compare e.key e'.key = .eq → e.epoch ≠ e'.epoch := by
  rw [pairwise_iff_getElem]
  constructor
  · intro h i j hi hj hij e he e' he' hkeys hepochs
    have := h i j e e' (heldIn_iff.2 ⟨_, List.getElem?_eq_getElem hi, he⟩)
      (heldIn_iff.2 ⟨_, List.getElem?_eq_getElem hj, he'⟩) hkeys hepochs
    omega
  · intro h i j e e' he he' hkeys hepochs
    obtain ⟨l, hl, he⟩ := heldIn_iff.1 he
    obtain ⟨m, hm, he'⟩ := heldIn_iff.1 he'
    obtain ⟨hi, rfl⟩ := List.getElem?_eq_some_iff.1 hl
    obtain ⟨hj, rfl⟩ := List.getElem?_eq_some_iff.1 hm
    rcases lt_trichotomy i j with hij | hij | hij
    · exact absurd hepochs (h i j hi hj hij e he e' he' hkeys)
    · exact hij
    · exact absurd hepochs.symm (h j i hj hi hij e' he' e he (compare_swap_eq.1 hkeys))

omit [TransOrd K] in
lemma collect_new_nil :
    (new ([] : List (List (OverlayEntry K V))) base visible).collect = .ok [] := by
  rw [collect_eq]
  rfl

end

end StreamingOverlayCursor

end HawDB
