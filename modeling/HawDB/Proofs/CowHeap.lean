import HawDB.CowHeap
import HawDB.Proofs.CowMap

/-!
# Handles behave as independent ordered maps

Each operation through a handle does to the map it sees what the operation of `CowSegmentedMap`
does, for some sharing of pages, and changes no other handle's (`Writes`). So a run of the store is
a run of independent ordered maps (`Simulates`).
-/

namespace HawDB

open List ArcHeap CowSegmentedMap CowMapPage CowPageWeight

namespace CowMapPage

variable {K V : Type*} [Ord K] [CowPageWeight K] [CowPageWeight V]

lemma splitOversized_right (page : CowMapPage K V) :
    page.splitOversized.2 =
      if page.entries.entries.length ≤ 1 ∨
          page.entries.entries.length ≤ cowMapMaxSegmentEntries ∧
            page.payloadBytes + page.entries.entries.length * cowMapEntryOverhead ≤
              cowMapTargetSegmentBytes then none
      else ({ page with bytes := some page.payloadBytes } : CowMapPage K V).splitKey.map fun key =>
        (({ page with bytes := some page.payloadBytes } : CowMapPage K V).splitOff key).2 := by
  unfold splitOversized
  dsimp only
  split_ifs with h h' h'
  · rfl
  · exact absurd h h'
  · exact absurd h' h
  · rcases ({ page with bytes := some page.payloadBytes } : CowMapPage K V).splitKey <;> rfl

lemma splitOversized_detach_right (page : CowMapPage K V) (b : Bool) :
    (page.detach b).splitOversized.2 = page.splitOversized.2 := by
  cases b
  · rfl
  · rw [splitOversized_right, splitOversized_right]
    rfl

end CowMapPage

namespace CowStore

variable {K V : Type*} [Ord K]

/-- Every handle has its directory and its counts. -/
structure WF (s : CowStore K V) : Prop where
  heap : s.heap.WF
  length : s.heap.roots.length = s.counts.length

/-- A handle's map becomes another one, and no other handle's map changes. -/
structure Writes (s s' : CowStore K V) (i : ℕ) (m : CowSegmentedMap K V) : Prop where
  wf : s'.WF
  length : s'.counts.length = s.counts.length
  self : s'.view i = m
  other : ∀ k, k < s.counts.length → k ≠ i → s'.view k = s.view k

lemma Writes.refl {s : CowStore K V} (h : s.WF) (i : ℕ) : Writes s s i (s.view i) :=
  ⟨h, rfl, rfl, fun _ _ _ => rfl⟩

lemma Writes.trans {s s' s'' : CowStore K V}
    (h : Writes s s' i m) (h' : Writes s' s'' i m') : Writes s s'' i m' where
  wf := h'.wf
  length := h'.length.trans h.length
  self := h'.self
  other := fun k hk hki => by rw [h'.other k (h.length.symm ▸ hk) hki, h.other k hk hki]

lemma Writes.of_heap {s : CowStore K V} (h : s.WF) (hi : i < s.counts.length)
    {heap : ArcHeap (CowMapPage K V)} {c : ℕ × ℕ} (hwf : heap.WF)
    (hlen : heap.roots.length = s.heap.roots.length)
    (hother : ∀ k, k < s.heap.roots.length → k ≠ i → heap.contents k = s.heap.contents k) :
    Writes s ⟨heap, s.counts.set i c⟩ i ⟨heap.contents i, c.1, c.2⟩ where
  wf := ⟨hwf, by rw [hlen, h.length, length_set]⟩
  length := length_set
  self := by simp [view, hi]
  other := by
    intro k hk hki
    simp only [view, hother k (h.length ▸ hk) hki]
    simp [Ne.symm hki]

lemma set_counts_self {s : CowStore K V} (hi : i < s.counts.length) :
    s.counts.set i ((s.view i).len, (s.view i).deltaPressureBytes) = s.counts := by
  refine ext_getElem? fun k => ?_
  rw [getElem?_set]
  split_ifs with hik
  · subst hik
    simp [view, hi]
  · rfl

variable {page : CowMapPage K V}

section

variable {heap : ArcHeap (CowMapPage K V)} {i index : ℕ}

section

variable (h : heap.WF) (hi : i < heap.roots.length) (hpage : (heap.contents i)[index]? = some page)
  (g : CowMapPage K V → CowMapPage K V)

include h hi hpage g

lemma contents_editPage : ((heap.makeDirMut i).cellMut copy i index g).contents i =
      (heap.contents i).set index (g (page.detach ((heap.makeDirMut i).cellShared i index))) := by
  have hi' : i < (heap.makeDirMut i).roots.length := by simpa using hi
  have hsame := contents_makeDirMut h hi hi
  rw [contents_cellMut_self _ _ (wf_makeDirMut h hi) hi' (by rwa [hsame]), hsame]
  rfl

lemma contents_editPage_of_ne (hk : k < heap.roots.length) (hki : k ≠ i) :
    ((heap.makeDirMut i).cellMut CowMapPage.copy i index g).contents k = heap.contents k := by
  have hsame := contents_makeDirMut h hi hi
  rw [contents_cellMut_of_ne _ _ (wf_makeDirMut h hi)
    (exclusive_makeDirMut h hi) (by simpa using hi) ?_ (by simpa using hk) hki,
    contents_makeDirMut h hi hk]
  have hlt := (List.getElem?_eq_some_iff.1 (hsame ▸ hpage)).1
  simpa [contents] using hlt

end

variable [CowPageWeight K] [CowPageWeight V]

lemma editSplit_spec (h : heap.WF) (hi : i < heap.roots.length)
    (hpage : (heap.contents i)[index]? = some page) {g : CowMapPage K V → CowMapPage K V}
    (hedit : ∀ b, g (page.detach b) = (g page).detach b) : (editSplit heap i index page g).WF ∧
      (editSplit heap i index page g).roots.length = heap.roots.length ∧
      (editSplit heap i index page g).contents i =
        putSplit (heap.contents i) index
          (g (page.detach ((heap.makeDirMut i).cellShared i index))) ∧
      ∀ k, k < heap.roots.length → k ≠ i →
        (editSplit heap i index page g).contents k = heap.contents k := by
  have hwf := wf_cellMut (i := i) (j := index) copy
    (fun page => (g page).splitOversized.1) (wf_makeDirMut h hi)
  have hex := exclusive_cellMut (j := index) copy
    (fun page => (g page).splitOversized.1) (exclusive_makeDirMut h hi)
  have hself := contents_editPage h hi hpage fun page => (g page).splitOversized.1
  have hright := splitOversized_detach_right (g page) ((heap.makeDirMut i).cellShared i index)
  rw [← hedit] at hright
  unfold editSplit putSplit
  dsimp only
  rcases hsplit : (g (page.detach ((heap.makeDirMut i).cellShared i index))).splitOversized with
    ⟨left, _ | right⟩
  · rw [hsplit] at hright hself
    rw [← hright]
    exact ⟨hwf, by simp, hself, fun k hk hki => contents_editPage_of_ne h hi hpage _ hk hki⟩
  · rw [hsplit] at hright hself
    rw [← hright]
    have hi' : i < ((heap.makeDirMut i).cellMut copy i index
        fun page => (g page).splitOversized.1).roots.length := by simpa using hi
    refine ⟨wf_insertCell hwf hi', by simp [insertCell], ?_, fun k hk hki => ?_⟩
    · rw [contents_insertCell_self hwf hi', hself]
    · rw [contents_insertCell_of_ne hwf hex hi' (by simpa using hk) hki,
        contents_editPage_of_ne h hi hpage _ hk hki]

end

lemma getElem?_of_segmentFor {m : CowSegmentedMap K V}
    (h : m.segmentFor key = some (index, page)) : m.segments[index]? = some page := by
  obtain ⟨n, -, hn⟩ := Option.bind_eq_some_iff.1 h
  obtain ⟨q, hq, heq⟩ := Option.map_eq_some_iff.1 hn
  cases heq
  exact hq

section

variable [CowPageWeight K] [CowPageWeight V] {s : CowStore K V} {i : ℕ}

section

variable (h : s.WF) (hi : i < s.counts.length) (key : K)

include h hi key

lemma rebalanceKey_writes :
    ∃ shared, Writes s (s.rebalanceKey i key) i ((s.view i).rebalanceKey shared key) := by
  have hi' : i < s.heap.roots.length := h.length ▸ hi
  refine ⟨(s.heap.makeDirMut i).cellShared i, ?_⟩
  unfold rebalanceKey CowSegmentedMap.rebalanceKey
  rcases hfor : (s.view i).segmentFor key with _ | ⟨index, page⟩
  · exact .refl h i
  obtain ⟨hwf, hlen, hself, hother⟩ := editSplit_spec h.heap hi'
    (getElem?_of_segmentFor hfor) (g := id) fun _ => rfl
  have hw := Writes.of_heap h hi
    (c := ((s.view i).len, (s.view i).deltaPressureBytes)) hwf hlen hother
  rw [set_counts_self hi, hself] at hw
  exact hw

lemma getMut_writes (f : V → V) :
    ∃ shared, Writes s (s.getMut i key f).2 i ((s.view i).getMut shared key f).2 ∧
      (s.getMut i key f).1 = ((s.view i).getMut shared key f).1 := by
  have hi' : i < s.heap.roots.length := h.length ▸ hi
  refine ⟨(s.heap.makeDirMut i).cellShared i, ?_⟩
  unfold getMut CowSegmentedMap.getMut
  rcases hfor : (s.view i).segmentFor key with _ | ⟨index, page⟩
  · exact ⟨.refl h i, rfl⟩
  have hpage := getElem?_of_segmentFor hfor
  rcases hget : page.entries.get key with _ | value
  · simp only [hget]
    exact ⟨.refl h i, trivial⟩
  simp only [hget]
  have hw := Writes.of_heap h hi
    (c := ((s.view i).len, (s.view i).deltaPressureBytes -
      deltaPressureBytes value + deltaPressureBytes (f value)))
    (wf_cellMut copy (fun page => page.editValue key f) (wf_makeDirMut h.heap hi'))
    (by simp) fun k hk hki => contents_editPage_of_ne h.heap hi' hpage _ hk hki
  rw [contents_editPage h.heap hi' hpage] at hw
  exact ⟨hw, trivial⟩

lemma remove_writes :
    ∃ shared, Writes s (s.remove i key).2 i ((s.view i).remove shared key).2 ∧
      (s.remove i key).1 = ((s.view i).remove shared key).1 := by
  have hi' : i < s.heap.roots.length := h.length ▸ hi
  refine ⟨(s.heap.makeDirMut i).cellShared i, ?_⟩
  unfold remove CowSegmentedMap.remove
  rcases hfor : (s.view i).segmentFor key with _ | ⟨index, page⟩
  · exact ⟨.refl h i, rfl⟩
  have hpage := getElem?_of_segmentFor hfor
  rcases hget : page.entries.get key with _ | value
  · simp only [hget]
    exact ⟨.refl h i, trivial⟩
  simp only [hget]
  refine ⟨?_, trivial⟩
  have hwf := wf_cellMut (i := i) (j := index) copy
    (fun page => (page.remove key).2) (wf_makeDirMut h.heap hi')
  have hex := exclusive_cellMut (j := index) copy
    (fun page => (page.remove key).2) (exclusive_makeDirMut h.heap hi')
  have hother : ∀ k, k < s.heap.roots.length → k ≠ i → _ := fun k hk hki =>
    contents_editPage_of_ne h.heap hi' hpage (fun page => (page.remove key).2) hk hki
  have hself := contents_editPage h.heap hi' hpage fun page => (page.remove key).2
  have hentries : ((page.detach ((s.heap.makeDirMut i).cellShared i index)).remove
      key).2.entries.entries = (page.remove key).2.entries.entries := by
    simp [CowMapPage.remove]
  rw [hentries]
  split_ifs with hempty
  · have hw := Writes.of_heap h hi
      (c := ((s.view i).len - 1, (s.view i).deltaPressureBytes -
        deltaPressureBytes value))
      (wf_setDir (i := i) hwf fun p hp => hwf.pointer_lt (by simpa using hi')
        (mem_of_mem_eraseIdx (i := index) hp))
      (by simp [setDir]) fun k hk hki => by
        rw [contents_setDir_of_ne hex (by simpa using hi') (by simpa using hk) hki, hother k hk hki]
    rw [contents_setDir_self, ← eraseIdx_map] at hw
    change Writes s _ i ⟨eraseIdx (contents _ i) index, _, _⟩ at hw
    rw [hself, eraseIdx_set_eq] at hw
    exact hw
  · have hw := Writes.of_heap h hi
      (c := ((s.view i).len - 1, (s.view i).deltaPressureBytes -
        deltaPressureBytes value)) hwf (by simp) hother
    rw [hself] at hw
    exact hw

end

omit [CowPageWeight K] in
lemma retainLoop_congr {σ : Type*} (keep : σ → K → V → σ × V × Bool) (shared shared' : ℕ → Bool) :
    ∀ (pages : List (CowMapPage K V)) (index : ℕ) (state : σ) (c : ℕ × ℕ),
      (∀ n, index ≤ n → shared n = shared' n) →
        CowSegmentedMap.retainLoop shared keep index state pages c =
          CowSegmentedMap.retainLoop shared' keep index state pages c
  | [], _, _, _, _ => rfl
  | page :: pages, index, state, (len, pressure), h => by
    simp only [CowSegmentedMap.retainLoop, h index le_rfl,
      retainLoop_congr keep shared shared' pages (index + 1) _ _ fun n hn => h n (Nat.le_of_succ_le hn)]

omit [CowPageWeight K] in
lemma retainLoop_spec {σ : Type*} (keep : σ → K → V → σ × V × Bool) :
    ∀ (pages done : List (CowMapPage K V)) (state : σ) (heap : ArcHeap (CowMapPage K V))
      (c : ℕ × ℕ), heap.WF → heap.Exclusive i → i < heap.roots.length →
      heap.contents i = done ++ pages →
      ∃ shared heap',
        retainLoop i keep pages done.length state heap c =
          ((CowSegmentedMap.retainLoop shared keep done.length state pages c).1, heap',
            (CowSegmentedMap.retainLoop shared keep done.length state pages c).2.2) ∧
        heap'.WF ∧ heap'.Exclusive i ∧ heap'.roots = heap.roots ∧
        heap'.contents i =
          done ++ (CowSegmentedMap.retainLoop shared keep done.length state pages c).2.1 ∧
        ∀ k, k < heap.roots.length → k ≠ i → heap'.contents k = heap.contents k
  | [], done, state, heap, c, hwf, hex, _, hc =>
    ⟨fun _ => false, heap, rfl, hwf, hex, rfl, by simpa [CowSegmentedMap.retainLoop] using hc,
      fun _ _ _ => rfl⟩
  | page :: pages, done, state, heap, (len, pressure), hwf, hex, hi, hc => by
    have hpage : (heap.contents i)[done.length]? = some page := by simp [hc]
    have hj : done.length < (heap.dirs (heap.dirOf i)).length := by
      simpa [contents] using (List.getElem?_eq_some_iff.1 hpage).1
    let edit : CowMapPage K V → CowMapPage K V := fun page' =>
      { page' with
        entries := (page.entries.retain keep state).2, bytes := none, epochBounds := none }
    have hself := contents_cellMut_self copy edit hwf hi hpage
    -- the page just edited joins those done
    obtain ⟨shared, heap', hrun, hwf', hex', hroots, hcontents, hother⟩ :=
      retainLoop_spec keep pages
        (done ++ [edit (page.detach (heap.cellShared i done.length))])
        (page.entries.retain keep state).1 (heap.cellMut copy i done.length edit)
        (len - page.entries.entries.length + (page.entries.retain keep state).2.entries.length,
          pressure - entriesPressure page.entries.entries +
            entriesPressure (page.entries.retain keep state).2.entries)
        (wf_cellMut _ _ hwf) (exclusive_cellMut _ _ hex) (by simpa using hi) (by
          rw [hself, hc, append_assoc, set_append_right _ _ le_rfl, Nat.sub_self]
          rfl)
    rw [length_append, length_singleton] at hrun hcontents
    have hcongr := retainLoop_congr keep
      (fun n => if n = done.length then heap.cellShared i done.length else shared n)
      shared pages (done.length + 1) (page.entries.retain keep state).1
      (len - page.entries.entries.length + (page.entries.retain keep state).2.entries.length,
        pressure - entriesPressure page.entries.entries +
          entriesPressure (page.entries.retain keep state).2.entries)
      fun n hn => if_neg (by omega)
    refine ⟨fun n => if n = done.length then heap.cellShared i done.length else shared n, heap',
      ?_, hwf', hex', by rw [hroots, roots_cellMut], ?_, fun k hk hki => ?_⟩
    · simp only [retainLoop, CowSegmentedMap.retainLoop, hcongr]
      exact hrun
    · simp only [CowSegmentedMap.retainLoop, hcongr, if_true]
      rw [hcontents, append_assoc]
      rfl
    · rw [hother k (by simpa using hk) hki, contents_cellMut_of_ne _ _ hwf hex hi hj hk hki]

omit [CowPageWeight K] in
lemma retain_writes {σ : Type*} (h : s.WF) (hi : i < s.counts.length)
    (keep : σ → K → V → σ × V × Bool) (state : σ) :
    ∃ shared, Writes s (s.retain i keep state).2 i ((s.view i).retain shared keep state).2 ∧
      (s.retain i keep state).1 = ((s.view i).retain shared keep state).1 := by
  have hi' : i < s.heap.roots.length := h.length ▸ hi
  obtain ⟨shared, heap', hrun, hwf, hex, hroots, hcontents, hother⟩ :=
    retainLoop_spec keep (s.view i).segments [] state (s.heap.makeDirMut i)
      ((s.view i).len, (s.view i).deltaPressureBytes) (wf_makeDirMut h.heap hi')
      (exclusive_makeDirMut h.heap hi') (by simpa using hi')
      (contents_makeDirMut h.heap hi' hi')
  refine ⟨shared, ?_⟩
  rw [length_nil] at hrun
  rw [length_nil, nil_append] at hcontents
  unfold retain CowSegmentedMap.retain
  simp only [hrun]
  refine ⟨?_, trivial⟩
  have hlen : heap'.roots.length = s.heap.roots.length := by simp [hroots]
  have hw := Writes.of_heap h hi
    (c := (CowSegmentedMap.retainLoop shared keep 0 state (s.view i).segments
      ((s.view i).len, (s.view i).deltaPressureBytes)).2.2)
    (wf_setDir (i := i) (l := (heap'.dirs (heap'.dirOf i)).filter fun p =>
      (heap'.cells p).entries.entries ≠ []) hwf fun p hp =>
        hwf.pointer_lt (hlen ▸ hi') (mem_of_mem_filter hp))
    (by simpa [setDir] using hlen) fun k hk hki => by
      rw [contents_setDir_of_ne hex (hlen ▸ hi') (hlen ▸ hk) hki,
        hother k (by simpa using hk) hki, contents_makeDirMut h.heap hi' hk]
  have hfilter : ((heap'.dirs (heap'.dirOf i)).filter fun p =>
      (heap'.cells p).entries.entries ≠ []).map heap'.cells =
        (heap'.contents i).filter fun page => page.entries.entries ≠ [] := by
    rw [contents, filter_map]
    rfl
  rw [contents_setDir_self, hfilter, hcontents] at hw
  exact hw

variable [Std.TransOrd K]

lemma insert_writes (h : s.WF) (hi : i < s.counts.length) (key : K) (value : V) :
    ∃ shared, Writes s (s.insert i key value).2 i ((s.view i).insert shared key value).2 ∧
      (s.insert i key value).1 = ((s.view i).insert shared key value).1 := by
  have hi' : i < s.heap.roots.length := h.length ▸ hi
  refine ⟨(s.heap.makeDirMut i).cellShared i, ?_⟩
  unfold insert CowSegmentedMap.insert
  rcases hfor : (s.view i).segmentFor key with _ | ⟨index, page⟩
  · refine ⟨?_, rfl⟩
    have hw := Writes.of_heap h hi (c := (1, deltaPressureBytes value))
      (wf_replaceDir (i := i) (l := [ofEntries (OrdMap.empty.insert key value)]) h.heap)
      (by simp [replaceDir]) fun k hk hki => by
        rw [contents_replaceDir h.heap hi' hk, if_neg hki]
    rw [contents_replaceDir h.heap hi' hi', if_pos rfl] at hw
    exact hw
  · have hedit : ∀ b, ((page.detach b).insert key value).2 =
        ((page.insert key value).2).detach b := by
      intro b
      cases b <;> rfl
    obtain ⟨hwf, hlen, hself, hother⟩ := editSplit_spec h.heap hi'
      (getElem?_of_segmentFor hfor) (g := fun page => (page.insert key value).2) hedit
    have hprev : ((page.detach ((s.heap.makeDirMut i).cellShared i index)).insert key value).1 =
        page.entries.get key := by
      simp [CowMapPage.insert]
    simp only [hprev]
    refine ⟨?_, trivial⟩
    have hw := Writes.of_heap h hi
      (c := (if (page.entries.get key).isNone then (s.view i).len + 1 else (s.view i).len,
        (s.view i).deltaPressureBytes -
          ((page.entries.get key).map CowPageWeight.deltaPressureBytes).getD 0 +
            deltaPressureBytes value)) hwf hlen hother
    rw [hself] at hw
    exact hw

lemma entryOrDefault_writes [Inhabited V] (h : s.WF) (hi : i < s.counts.length) (key : K)
    (f : V → V) :
    ∃ shared shared', Writes s (s.entryOrDefault i key f).2 i
        ((s.view i).entryOrDefault shared shared' key f).2 ∧
      (s.entryOrDefault i key f).1 = ((s.view i).entryOrDefault shared shared' key f).1 := by
  unfold entryOrDefault CowSegmentedMap.entryOrDefault
  split_ifs with hc
  · obtain ⟨shared, hw⟩ := getMut_writes h hi key f
    exact ⟨shared, shared, hw⟩
  obtain ⟨shared, hw, -⟩ := insert_writes h hi key default
  obtain ⟨shared', hw', hout⟩ := getMut_writes hw.wf (hw.length.symm ▸ hi) key f
  rw [hw.self] at hw' hout
  exact ⟨shared, shared', hw.trans hw', hout⟩

end

section

variable [CowPageWeight K] [CowPageWeight V]

/-- The handles stand for the ordered maps, one for one. -/
structure Simulates (s : CowStore K V) (maps : List (OrdMap K V)) : Prop where
  wf : s.WF
  length : s.counts.length = maps.length
  inv : ∀ i m, maps[i]? = some m → (s.view i).Inv
  iter : ∀ i m, maps[i]? = some m → (s.view i).iter = m.entries

variable {σ : Type*} {s s' : CowStore K V} {maps : List (OrdMap K V)} {i : ℕ} {m : OrdMap K V}

lemma simulates_init : Simulates (init : CowStore K V) [] where
  wf := ⟨fun d hd => absurd hd not_mem_nil, rfl⟩
  length := rfl
  inv := by simp
  iter := by simp

section

variable (h : Simulates s maps)

include h

lemma Simulates.lt (hm : maps[i]? = some m) : i < s.counts.length :=
  h.length ▸ (List.getElem?_eq_some_iff.1 hm).1

lemma Simulates.contents_eq (hm : maps[i]? = some m) : (h.inv i m hm).contents = m :=
  OrdMap.ext (h.iter i m hm)

lemma Simulates.writes {v : CowSegmentedMap K V} {m' : OrdMap K V} (hw : Writes s s' i v)
    (hinv : v.Inv) (hiter : v.iter = m'.entries) : Simulates s' (maps.set i m') := by
  have hview : ∀ k x, (maps.set i m')[k]? = some x →
      (s'.view k).Inv ∧ (s'.view k).iter = x.entries := by
    intro k x hx
    have hk : k < maps.length := by simpa using (List.getElem?_eq_some_iff.1 hx).1
    by_cases hki : k = i
    · subst hki
      rw [getElem?_set_self hk] at hx
      cases hx
      rw [hw.self]
      exact ⟨hinv, hiter⟩
    · rw [getElem?_set_ne (Ne.symm hki)] at hx
      rw [hw.other k (h.length ▸ hk) hki]
      exact ⟨h.inv k x hx, h.iter k x hx⟩
  exact ⟨hw.wf, by rw [hw.length, h.length, length_set], fun k x hx => (hview k x hx).1,
    fun k x hx => (hview k x hx).2⟩

lemma Simulates.append (hwf : s'.WF) (hlen : s'.counts.length = s.counts.length + 1)
    (hold : ∀ k, k < s.counts.length → s'.view k = s.view k) (hinv : (s'.view s.counts.length).Inv)
    (hiter : (s'.view s.counts.length).iter = m.entries) : Simulates s' (maps ++ [m]) := by
  have hview : ∀ k x, (maps ++ [m])[k]? = some x →
      (s'.view k).Inv ∧ (s'.view k).iter = x.entries := by
    intro k x hx
    by_cases hk : k < maps.length
    · rw [getElem?_append_left hk] at hx
      rw [hold k (h.length ▸ hk)]
      exact ⟨h.inv k x hx, h.iter k x hx⟩
    have hkl : k = maps.length := by
      have hlt := (List.getElem?_eq_some_iff.1 hx).1
      rw [length_append, length_singleton] at hlt
      omega
    subst hkl
    rw [getElem?_concat_length] at hx
    cases hx
    rw [← h.length]
    exact ⟨hinv, hiter⟩
  exact ⟨hwf, by rw [hlen, h.length, length_append, length_singleton],
    fun k x hx => (hview k x hx).1, fun k x hx => (hview k x hx).2⟩

lemma Simulates.clone (hm : maps[i]? = some m) :
    Simulates ⟨s.heap.share i, s.counts ++ [s.counts.getD i (0, 0)]⟩ (maps ++ [m]) := by
  have hi := h.lt hm
  have hroots := h.wf.length
  have hshare : ∀ k, k ≤ s.counts.length →
      (⟨s.heap.share i, s.counts ++ [s.counts.getD i (0, 0)]⟩ : CowStore K V).view k =
        if k = s.counts.length then s.view i else s.view k := by
    intro k hk
    have hc := contents_share (s := s.heap) (i := i) (hroots.symm ▸ hk)
    rw [hroots] at hc
    unfold view
    simp only [hc]
    split_ifs with hkl
    · subst hkl
      simp
    · simp [getElem?_append_left (lt_of_le_of_ne hk hkl)]
  refine h.append ⟨wf_share h.wf.heap (hroots.symm ▸ hi), ?_⟩ (by simp) ?_ ?_ ?_
  · simp [share, hroots]
  · exact fun k hk => by rw [hshare k hk.le, if_neg hk.ne]
  · rw [hshare _ le_rfl, if_pos rfl]
    exact h.inv i m hm
  · rw [hshare _ le_rfl, if_pos rfl]
    exact h.iter i m hm

lemma Simulates.drop (i : ℕ) :
    Simulates ⟨s.heap.drop i, s.counts.eraseIdx i⟩ (maps.eraseIdx i) := by
  have hview : ∀ k, (⟨s.heap.drop i, s.counts.eraseIdx i⟩ : CowStore K V).view k =
      s.view (if k < i then k else k + 1) := by
    intro k
    unfold view
    simp only [contents_drop, getD_eq_getElem?_getD, getElem?_eraseIdx]
    split_ifs <;> rfl
  have hget : ∀ k x, (maps.eraseIdx i)[k]? = some x →
      maps[if k < i then k else k + 1]? = some x := by
    intro k x hx
    rw [getElem?_eraseIdx] at hx
    split_ifs at hx ⊢ <;> exact hx
  refine ⟨⟨wf_drop h.wf.heap, ?_⟩, ?_, fun k x hx => ?_, fun k x hx => ?_⟩
  · simp [ArcHeap.drop, length_eraseIdx, h.wf.length]
  · simp [length_eraseIdx, h.length]
  · rw [hview]
    exact h.inv _ x (hget k x hx)
  · rw [hview]
    exact h.iter _ x (hget k x hx)

end

variable [Std.TransOrd K]

lemma Simulates.new (h : Simulates s maps) (values : OrdMap K V) :
    Simulates ⟨s.heap.addRoot (ofOrdMap values).segments, s.counts ++ [((ofOrdMap values).len,
        (ofOrdMap values).deltaPressureBytes)]⟩ (maps ++ [values]) := by
  have hroots := h.wf.length
  obtain ⟨hinv, hiter⟩ := inv_ofOrdMap values
  have hadd : ∀ k, k ≤ s.counts.length →
      (⟨s.heap.addRoot (ofOrdMap values).segments, s.counts ++ [((ofOrdMap values).len,
          (ofOrdMap values).deltaPressureBytes)]⟩ : CowStore K V).view k =
        if k = s.counts.length then ofOrdMap values else s.view k := by
    intro k hk
    have hc := contents_addRoot (l := (ofOrdMap values).segments) h.wf.heap (hroots.symm ▸ hk)
    rw [hroots] at hc
    unfold view
    simp only [hc]
    split_ifs with hkl
    · subst hkl
      simp
    · simp [getElem?_append_left (lt_of_le_of_ne hk hkl)]
  refine h.append ⟨wf_addRoot h.wf.heap, ?_⟩ (by simp) ?_ ?_ ?_
  · simp [addRoot, hroots]
  · exact fun k hk => by rw [hadd k hk.le, if_neg hk.ne]
  · rw [hadd _ le_rfl, if_pos rfl]
    exact hinv
  · rw [hadd _ le_rfl, if_pos rfl]
    exact hiter

lemma Simulates.apply [Inhabited V] (h : Simulates s maps) (hm : maps[i]? = some m)
    (op : Op K V σ) : (s.apply i op).1 = (OrdMapStore.apply maps i m op).1 ∧
      Simulates (s.apply i op).2 (OrdMapStore.apply maps i m op).2 := by
  have hi := h.lt hm
  have hinv := h.inv i m hm
  have hcontents := h.contents_eq hm
  have hiter := h.iter i m hm
  cases op with
  | insert key value =>
    obtain ⟨shared, hw, hout⟩ := insert_writes h.wf hi key value
    obtain ⟨hinv', hiter', hget⟩ := hinv.insert shared key value
    rw [hcontents] at hget
    exact ⟨congrArg Output.value (hout.trans hget), h.writes hw hinv' (hiter'.trans (by rw [hiter]; rfl))⟩
  | getMut key f =>
    obtain ⟨shared, hw, hout⟩ := getMut_writes h.wf hi key f
    obtain ⟨hinv', hiter', hget⟩ := hinv.getMut shared key f
    rw [hcontents] at hget
    exact ⟨congrArg Output.value (hout.trans hget), h.writes hw hinv' (hiter'.trans (by rw [hiter]; rfl))⟩
  | remove key =>
    obtain ⟨shared, hw, hout⟩ := remove_writes h.wf hi key
    obtain ⟨hinv', hiter', hget⟩ := hinv.remove shared key
    rw [hcontents] at hget
    exact ⟨congrArg Output.value (hout.trans hget), h.writes hw hinv' (hiter'.trans (by rw [hiter]; rfl))⟩
  | retain keep state =>
    obtain ⟨shared, hw, hout⟩ := retain_writes h.wf hi keep state
    obtain ⟨hinv', hiter', hstate⟩ := CowSegmentedMap.Inv.retain shared keep hinv state
    rw [hiter] at hiter' hstate
    exact ⟨congrArg Output.state (hout.trans hstate), h.writes hw hinv' hiter'⟩
  | entryOrDefault key f =>
    obtain ⟨shared, shared', hw, hout⟩ := entryOrDefault_writes h.wf hi key f
    obtain ⟨hinv', hiter', hget⟩ := hinv.entryOrDefault shared shared' key f
    rw [hcontents] at hiter' hget
    exact ⟨congrArg Output.value (hout.trans hget), h.writes hw hinv' hiter'⟩
  | rebalanceKey key =>
    obtain ⟨shared, hw⟩ := rebalanceKey_writes h.wf hi key
    obtain ⟨hinv', hiter'⟩ := hinv.rebalanceKey shared key
    have hset := h.writes hw hinv' (hiter'.trans hiter)
    obtain ⟨hlt, hmi⟩ := List.getElem?_eq_some_iff.1 hm
    rw [← hmi, List.set_getElem_self] at hset
    exact ⟨rfl, hset⟩
  | clone => exact ⟨rfl, h.clone hm⟩
  | drop => exact ⟨rfl, h.drop i⟩

variable [Inhabited V]

lemma Simulates.step (h : Simulates s maps) (event : Event K V σ) :
    (s.step event).1 = (OrdMapStore.step maps event).1 ∧
      Simulates (s.step event).2 (OrdMapStore.step maps event).2 := by
  cases event with
  | new values => exact ⟨rfl, h.new values⟩
  | op i op =>
    rcases hm : maps[i]? with _ | m
    · have hi : ¬ i < s.counts.length := h.length ▸ (getElem?_eq_none_iff.1 hm).not_gt
      simp only [CowStore.step, OrdMapStore.step, hm, if_neg hi]
      exact ⟨trivial, h⟩
    · simp only [CowStore.step, OrdMapStore.step, hm, if_pos (h.lt hm)]
      exact h.apply hm op

lemma Simulates.run : ∀ {s : CowStore K V} {maps : List (OrdMap K V)} (events : List (Event K V σ)),
    Simulates s maps → (s.run events).1 = (OrdMapStore.run maps events).1 ∧
      Simulates (s.run events).2 (OrdMapStore.run maps events).2
  | _, _, [], h => ⟨rfl, h⟩
  | _, _, event :: events, h => by
    obtain ⟨hout, hstep⟩ := h.step event
    obtain ⟨houts, hrun⟩ := run events hstep
    exact ⟨congrArg₂ cons hout houts, hrun⟩

/-- Whatever is done to the maps and to their clones, every handle reads as the ordered map with
the same history, gives back what that map gives back, and is well formed. -/
theorem handles_are_independent_ordered_maps (events : List (Event K V σ)) :
    ((init : CowStore K V).run events).1 = (OrdMapStore.run [] events).1 ∧
      ((init : CowStore K V).run events).2.counts.length =
        (OrdMapStore.run ([] : List (OrdMap K V)) events).2.length ∧
      ∀ i m, (OrdMapStore.run [] events).2[i]? = some m →
        let handle := ((init : CowStore K V).run events).2.view i
        (∀ key, handle.get key = m.get key) ∧ handle.iter = m.entries ∧
          (∀ after, handle.iterAfter after = m.iterAfter after) ∧
          (∀ first last, handle.range first last = m.range first last) ∧
          (∀ lower, handle.firstAfter lower = (m.iterAfter lower).head?) ∧
          handle.len = m.entries.length ∧ handle.Representation := by
  obtain ⟨hout, hsim⟩ := (simulates_init (K := K) (V := V)).run events
  refine ⟨hout, hsim.length, fun i m hm => ?_⟩
  have hinv := hsim.inv i m hm
  have hcontents := hsim.contents_eq hm
  refine ⟨fun key => ?_, hsim.iter i m hm, fun after => ?_, fun first last => ?_, fun lower => ?_,
    ?_, hinv.representation⟩
  · rw [hinv.get_eq, hcontents]
  · rw [hinv.iterAfter_eq, hcontents]
  · rw [hinv.range_eq, hcontents]
  · rw [hinv.firstAfter_eq, hcontents]
  · rw [hinv.len_eq, hsim.iter i m hm]

end

theorem handles_are_independent_ordered_maps_cloneThenInsert :
    let _ : CowPageWeight ℕ := ⟨fun _ => 8, fun _ => 0⟩
    let events : List (Event ℕ ℕ Unit) :=
      [.new .empty, .op 0 (.insert 1 10), .op 0 .clone, .op 1 (.insert 2 20), .op 0 (.remove 1)]
    ((init : CowStore ℕ ℕ).run events).2.counts.length = 2 ∧
      (((init : CowStore ℕ ℕ).run events).2.view 0).iter = [] ∧
      (((init : CowStore ℕ ℕ).run events).2.view 1).iter = [(1, 10), (2, 20)] := by
  intro weight events
  obtain ⟨-, hlen, hview⟩ := handles_are_independent_ordered_maps events
  have hempty := hview 0 ((OrdMap.empty.insert 1 10).remove 1) rfl
  have hboth := hview 1 ((OrdMap.empty.insert 1 10).insert 2 20) rfl
  exact ⟨hlen, hempty.2.1, hboth.2.1⟩

end CowStore

end HawDB
