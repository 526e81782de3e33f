import HawDB.RowPageRead
import HawDB.Proofs.RowPage

/-!
# Snapshot reads show the newest rows

Every read of a view is a reading of one map, `rowAt`. The overlay of a key is its
change of greatest epoch (`overlayValue_spec`), and a key without one is found by the page search in
the base (`pageContaining_spec`).
-/

namespace HawDB

open List RowPageView OrdMap

/-! ### Requested fields -/

variable {page : RowPage} {value : Option RelationalRow}

section

variable {columnCount : ℕ} {fields : List ℕ}

lemma validateFieldsLoop_eq_ok : ∀ {fields previous},
    validateFieldsLoop columnCount previous fields = .ok () →
      fields.Pairwise (· < ·) ∧ (∀ field ∈ fields, field < columnCount) ∧
        ∀ field ∈ fields, ∀ p ∈ previous, p < field
  | [], _, _ => ⟨.nil, nofun, nofun⟩
  | field :: fields, previous, h => by
    rw [validateFieldsLoop] at h
    split_ifs at h with hcount hprevious
    obtain ⟨hsorted, hcounts, hfirst⟩ := validateFieldsLoop_eq_ok h
    have hlt : ∀ p ∈ previous, p < field := fun p hp => by
      rw [Option.mem_def] at hp
      simpa [hp] using hprevious
    refine ⟨pairwise_cons.2 ⟨fun f hf => hfirst f hf field rfl, hsorted⟩, ?_, ?_⟩
    · exact forall_mem_cons.2 ⟨by omega, hcounts⟩
    · exact forall_mem_cons.2 ⟨hlt, fun f hf p hp => (hlt p hp).trans (hfirst f hf field rfl)⟩

/-- Requested fields of a table of so many columns. -/
def AreFields (columnCount : ℕ) (fields : List ℕ) : Prop :=
  fields.Pairwise (· < ·) ∧ ∀ field ∈ fields, field < columnCount

lemma decodeFieldsLoop_eq : ∀ {row fields ordinal},
    fields.Pairwise (· < ·) → (∀ field ∈ fields, ordinal ≤ field ∧ field < ordinal + row.length) →
      decodeFieldsLoop ordinal fields row =
        fields.map fun field => (field, row.getD (field - ordinal) .null)
  | [], [], _, _, _ => rfl
  | [], field :: _, ordinal, _, hrange => by
    have := hrange field mem_cons_self
    rw [length_nil] at this
    omega
  | _ :: _, [], _, _, _ => rfl
  | value :: row, field :: fields, ordinal, hsorted, hrange => by
    obtain ⟨hfirst, hrest⟩ := pairwise_cons.1 hsorted
    have hshift : ∀ l : List ℕ, (∀ f ∈ l, ordinal + 1 ≤ f) →
        (l.map fun f => (f, row.getD (f - (ordinal + 1)) .null)) =
          l.map fun f => (f, (value :: row).getD (f - ordinal) .null) := fun l hl => by
      refine map_congr_left fun f hf => ?_
      obtain ⟨k, rfl⟩ := Nat.exists_eq_add_of_le (hl f hf)
      rw [show ordinal + 1 + k - ordinal = k + 1 by omega, getD_cons_succ, Nat.add_sub_cancel_left]
    have hlength : ∀ f ∈ field :: fields, f < ordinal + 1 + row.length := fun f hf => by
      have := (hrange f hf).2
      rw [length_cons] at this
      omega
    rw [decodeFieldsLoop]
    split_ifs with heq
    · subst heq
      rw [decodeFieldsLoop_eq hrest fun f hf => ⟨hfirst f hf, hlength f (mem_cons_of_mem _ hf)⟩,
        hshift fields hfirst, map_cons, Nat.sub_self]
      rfl
    · have hlt : ∀ f ∈ field :: fields, ordinal + 1 ≤ f := by
        have := (hrange field mem_cons_self).1
        refine forall_mem_cons.2 ⟨by omega, fun f hf => ?_⟩
        have := hfirst f hf
        omega
      rw [decodeFieldsLoop_eq hsorted fun f hf => ⟨hlt f hf, hlength f hf⟩, hshift _ hlt]

lemma decodeRowFields_eq_ok (hfields : AreFields columnCount fields)
    (h : decodeRowFields columnCount fields row = .ok projected) :
    projected = projectFields fields row := by
  rw [decodeRowFields] at h
  split_ifs at h with hlength
  rw [← Except.ok.inj h, decodeFieldsLoop_eq hfields.1 fun field hfield => ⟨Nat.zero_le _, ?_⟩]
  · rfl
  · rw [not_ne_iff.1 hlength, Nat.zero_add]
    exact hfields.2 field hfield

lemma validateRequestedFields_eq_ok {limits : RowPageLimits}
    (h : validateRequestedFields limits columnCount fields = .ok ()) :
    AreFields columnCount fields := by
  rw [validateRequestedFields] at h
  split_ifs at h
  exact ⟨(validateFieldsLoop_eq_ok h).1, (validateFieldsLoop_eq_ok h).2.1⟩

lemma validateColumnCount_eq_ok {root : RowTableRoot}
    (h : validateColumnCount table root page = .ok ()) : page.columnCount = root.columnCount := by
  rw [validateColumnCount] at h
  split_ifs at h with hcount
  exact not_ne_iff.1 hcount

lemma projectOverlayValue_eq_ok
    (h : projectOverlayValue columnCount fields value = .ok projected) :
    projected = value.map (projectFields fields) := by
  cases value with
  | none => exact (Except.ok.inj h).symm
  | some row =>
    rw [projectOverlayValue] at h
    split_ifs at h
    exact (Except.ok.inj h).symm

lemma decodeProjectedValue_eq_ok (hfields : AreFields columnCount fields)
    (h : decodeProjectedValue columnCount fields value = .ok projected) :
    projected = value.map (projectFields fields) := by
  cases value with
  | none => exact (Except.ok.inj h).symm
  | some row =>
    obtain ⟨decoded, hdecoded, rfl⟩ := map_eq_ok.1 h
    rw [decodeRowFields_eq_ok hfields hdecoded]
    rfl

end

/-! ### The newest change of a key -/

section

variable {changes : List RowChangeEntry} {key : RelationalKey} {change other : RowChangeEntry}

/-- The change of a key of greatest epoch. -/
structure IsNewestChange (changes : List RowChangeEntry) (key : RelationalKey)
    (change : RowChangeEntry) : Prop where
  mem : change ∈ changes
  key_eq : compare change.key key = .eq
  newest : ∀ other ∈ changes, compare other.key key = .eq → other.epoch ≤ change.epoch

section

variable (h : changes.Pairwise fun a b => compare a.key b.key = .eq → a.epoch ≠ b.epoch)

include h

lemma eq_of_noKeyTwice (hchange : change ∈ changes) (hother : other ∈ changes)
    (hkeys : compare change.key other.key = .eq) (hepochs : change.epoch = other.epoch) :
    change = other := by
  by_contra hne
  have hsymm : Std.Symm fun a b : RowChangeEntry =>
      compare a.key b.key = .eq → a.epoch ≠ b.epoch :=
    ⟨fun a b hab hkeys => (hab (compare_swap_eq.1 hkeys)).symm⟩
  exact h.forall hchange hother hne hkeys hepochs

lemma IsNewestChange.unique (hchange : IsNewestChange changes key change)
    (hother : IsNewestChange changes key other) : change = other :=
  eq_of_noKeyTwice h hchange.mem hother.mem
    (Std.TransCmp.eq_trans hchange.key_eq (compare_swap_eq.1 hother.key_eq))
    (le_antisymm (hother.newest change hchange.mem hchange.key_eq)
      (hchange.newest other hother.mem hother.key_eq))

end

variable {view : RowPageView}

lemma rowAt_of_newest (hview : view.NoKeyTwiceAtEpoch)
    (h : IsNewestChange (view.changes table) key change) : view.rowAt table key = change.value := by
  rw [rowAt]
  rcases hmax : ((view.changes table).filter fun c => compare c.key key = .eq).argmax (·.epoch)
    with _ | newest
  · have hmem : change ∈ (view.changes table).filter fun c => compare c.key key = .eq :=
      mem_filter.2 ⟨h.mem, by simpa using h.key_eq⟩
    rw [argmax_eq_none.1 hmax] at hmem
    cases hmem
  · obtain ⟨hmem, hkey⟩ := mem_filter.1 (argmax_mem hmax)
    have hnewest : IsNewestChange (view.changes table) key newest :=
      ⟨hmem, by simpa using hkey, fun other hother hother' =>
        le_of_mem_argmax (mem_filter.2 ⟨hother, by simpa using hother'⟩) hmax⟩
    rw [hmax, h.unique (hview table) hnewest]

lemma rowAt_of_unchanged (h : ∀ change ∈ view.changes table, compare change.key key ≠ .eq) :
    view.rowAt table key = view.baseRow table key := by
  rw [rowAt, filter_eq_nil_iff.2 fun change hchange => by
    simpa using h change hchange]
  rfl

end

/-! ### The overlay of a key -/

section

variable {reader : RowDeltaReader} {key : RelationalKey} {change : RowChangeEntry}

lemma RowDeltaReader.Opened.areEntries (h : reader.Opened) :
    reader.context.AreEntries reader.runs := fun run hrun entry hentry =>
  ⟨(h.entries run hrun entry hentry).1, (h.entries run hrun entry hentry).2.1⟩

lemma changeOf_eq_some {entry : RowDeltaEntry} (hentry : IsKeyBytes entry.1.encodedPrimaryKey) :
    RowDeltaReader.changeOf entry = some change ↔ IsDecoded entry change := by
  obtain ⟨candidate, hdecode, hencode⟩ := hentry
  rw [RowDeltaReader.changeOf, hdecode]
  constructor
  · intro h
    cases h
    exact ⟨hdecode, hencode, rfl, rfl⟩
  · intro h
    cases hdecode.symm.trans h.decode
    show some _ = some change
    rw [← h.epoch, ← h.value]

lemma mem_changesOf (hopened : reader.Opened) : change ∈ reader.changesOf table ↔
    ∃ run ∈ reader.runs, ∃ entry ∈ run.entries.entries,
      reader.context.tableOrdinal table = some entry.1.tableOrdinal ∧ IsDecoded entry change := by
  simp only [RowDeltaReader.changesOf, mem_flatMap, mem_filterMap, mem_filter, decide_eq_true_eq]
  constructor
  · rintro ⟨run, hrun, entry, ⟨hentry, htable⟩, hchange⟩
    exact ⟨run, hrun, entry, hentry, htable,
      (changeOf_eq_some (hopened.entries run hrun entry hentry).2.1).1 hchange⟩
  · rintro ⟨run, hrun, entry, hentry, htable, hchange⟩
    exact ⟨run, hrun, entry, ⟨hentry, htable⟩,
      (changeOf_eq_some (hopened.entries run hrun entry hentry).2.1).2 hchange⟩

lemma IsDecoded.encodedPrimaryKey_eq {entry : RowDeltaEntry}
    (h : IsDecoded entry change) (hkey : encodeOrderedRelationalKey key = .ok x) :
    entry.1.encodedPrimaryKey = x ↔ compare change.key key = .eq := by
  rw [← compare_encodeOrderedRelationalKey h.encode hkey, Std.LawfulEqOrd.compare_eq_iff_eq]

lemma newest_of_findSome? {key : RowDeltaKey} {value : RowDeltaValue} :
    ∀ (runs : List RowDeltaRun),
      runs.Pairwise (fun run later => ∀ entry ∈ run.entries.entries,
        ∀ entry' ∈ later.entries.entries, entry.2.lastModifiedEpoch ≤ entry'.2.lastModifiedEpoch) →
      (runs.reverse.findSome? fun run => run.entries.get key) = some value →
        (∃ run ∈ runs, (key, value) ∈ run.entries.entries) ∧
          ∀ run ∈ runs, ∀ v, run.entries.get key = some v →
            v.lastModifiedEpoch ≤ value.lastModifiedEpoch := by
  have hmem : ∀ {map : OrdMap RowDeltaKey RowDeltaValue} {v : RowDeltaValue},
      map.get key = some v → (key, v) ∈ map.entries := fun {map v} h => by
    obtain ⟨k', hmem, hcompare⟩ := get_eq_some_iff.1 h
    rwa [← Std.LawfulEqOrd.eq_of_compare hcompare]
  intro runs
  induction runs using reverseRecOn with
  | nil => exact nofun
  | append_singleton runs run ih =>
    intro hepochs hfind
    obtain ⟨hepochs, -, hlater⟩ := pairwise_append.1 hepochs
    rw [reverse_append, reverse_singleton, singleton_append, findSome?_cons] at hfind
    rcases hrun : run.entries.get key with _ | v
    · rw [hrun] at hfind
      obtain ⟨⟨holder, hholder, hvalue⟩, hnewest⟩ := ih hepochs hfind
      refine ⟨⟨holder, mem_append_left _ hholder, hvalue⟩, fun other hother w hw => ?_⟩
      rcases mem_append.1 hother with hother | hother
      · exact hnewest other hother w hw
      · rw [mem_singleton.1 hother, hrun] at hw
        cases hw
    · rw [hrun] at hfind
      cases hfind
      refine ⟨⟨run, mem_append_right _ mem_cons_self, hmem hrun⟩, fun other hother w hw => ?_⟩
      rcases mem_append.1 hother with hother | hother
      · exact hlater other hother run mem_cons_self _ (hmem hw) _ (hmem hrun)
      · rw [mem_singleton.1 hother, hrun] at hw
        rw [Option.some.inj hw]

lemma lookup_spec (hopened : reader.Opened) (h : reader.lookup table key = .ok result) :
    match result with
    | none => ∀ change ∈ reader.changesOf table, compare change.key key ≠ .eq
    | some value => ∃ change, IsNewestChange (reader.changesOf table) key change ∧
        change.value = value := by
  rw [RowDeltaReader.lookup] at h
  rcases htable : reader.context.tableOrdinal table with _ | ordinal
  · rw [RowDeltaContext.lookupRuns, htable] at h
    cases h
    rintro change hchange -
    obtain ⟨-, -, entry, -, hordinal, -⟩ := (mem_changesOf hopened).1 hchange
    cases htable.symm.trans hordinal
  have hlookup := h
  rw [RowDeltaContext.lookupRuns, htable] at h
  obtain ⟨x, hx, -⟩ := bind_eq_ok.1 h
  have hencode : encodeOrderedRelationalKey key = .ok x ∧
      x.length ≤ reader.context.config.maxKeyBytes := by
    rw [RowDeltaContext.encodeLookupKey] at hx
    split at hx
    · cases hx
    rename_i y hy
    split_ifs at hx
    cases hx
    exact ⟨hy, by omega⟩
  rw [lookupRuns_eq hencode.1 hencode.2 hopened.areEntries, htable, Option.bind_some,
    Except.ok.injEq] at hlookup
  -- an entry of the key is the one the run finds
  have hget : ∀ run ∈ reader.runs, ∀ entry ∈ run.entries.entries, ∀ change,
      entry.1.tableOrdinal = ordinal → IsDecoded entry change → compare change.key key = .eq →
        run.entries.get ⟨ordinal, x⟩ = some entry.2 := by
    intro run hrun entry hentry change hordinal hdecoded heq
    have hkey : entry.1 = ⟨ordinal, x⟩ := by
      rw [← hordinal, ← (hdecoded.encodedPrimaryKey_eq hencode.1).2 heq]
    exact get_eq_some_iff.2 ⟨entry.1, hentry, by rw [hkey]; exact Std.ReflOrd.compare_self⟩
  rcases hfind : reader.runs.reverse.findSome? fun run => run.entries.get ⟨ordinal, x⟩
    with _ | value
  · rw [hfind] at hlookup
    obtain rfl := hlookup
    intro change hchange heq
    obtain ⟨run, hrun, entry, hentry, hordinal, hdecoded⟩ := (mem_changesOf hopened).1 hchange
    have hnone := findSome?_eq_none_iff.1 hfind run (mem_reverse.2 hrun)
    have := hget run hrun entry hentry change (Option.some.inj (hordinal.symm.trans htable))
      hdecoded heq
    cases hnone.symm.trans this
  · rw [hfind] at hlookup
    obtain rfl := hlookup
    obtain ⟨⟨run, hrun, hmem⟩, hnewest⟩ := newest_of_findSome? _ hopened.epochs hfind
    obtain ⟨candidate, hdecode, hcandidate⟩ := (hopened.entries run hrun _ hmem).2.1
    have hdecoded : IsDecoded (⟨ordinal, x⟩, value) ⟨candidate, value.lastModifiedEpoch, value.row⟩ :=
      ⟨hdecode, hcandidate, rfl, rfl⟩
    refine ⟨_, ⟨(mem_changesOf hopened).2 ⟨run, hrun, _, hmem, htable, hdecoded⟩,
      (hdecoded.encodedPrimaryKey_eq hencode.1).1 rfl, fun other hother heq => ?_⟩, rfl⟩
    obtain ⟨holder, hholder, entry, hentry, hordinal, hother⟩ := (mem_changesOf hopened).1 hother
    have := hget holder hholder entry hentry other (Option.some.inj (hordinal.symm.trans htable))
      hother heq
    rw [hother.epoch]
    exact hnewest holder hholder _ this

lemma compareChange_eq {c : RelationalRowChange} :
    compareChange c table key = .eq ↔ c.table = table ∧ compare c.primaryKey key = .eq := by
  rw [compareChange, Ordering.then_eq_eq, Std.LawfulEqOrd.compare_eq_iff_eq]

variable {batch : LiveBatch}

lemma LiveBatch.mem_changesOf : change ∈ batch.changesOf table ↔
    ∃ c ∈ batch.changes, c.table = table ∧ change = ⟨c.primaryKey, batch.commitEpoch, c.row⟩ := by
  simp only [LiveBatch.changesOf, mem_map, mem_filter, decide_eq_true_eq, and_assoc]
  exact exists_congr fun c => and_congr_right' (and_congr_right' eq_comm)

lemma LiveBatch.overlayValue_eq_none (h : batch.overlayValue table key = none) :
    ∀ change ∈ batch.changesOf table, compare change.key key ≠ .eq := by
  intro change hchange heq
  obtain ⟨c, hc, htable, rfl⟩ := LiveBatch.mem_changesOf.1 hchange
  rw [LiveBatch.overlayValue, Option.map_eq_none_iff, find?_eq_none] at h
  exact h c hc (by simpa using compareChange_eq.2 ⟨htable, heq⟩)

lemma LiveBatch.overlayValue_eq_some (h : batch.overlayValue table key = some value) :
    ∃ change ∈ batch.changesOf table, compare change.key key = .eq ∧
      change.epoch = batch.commitEpoch ∧ change.value = value := by
  obtain ⟨c, hc, rfl⟩ := Option.map_eq_some_iff.1 h
  obtain ⟨htable, hkey⟩ := compareChange_eq.1 (by simpa using find?_some hc)
  exact ⟨_, LiveBatch.mem_changesOf.2 ⟨c, mem_of_find?_eq_some hc, htable, rfl⟩, hkey, rfl, rfl⟩

lemma newest_of_live : ∀ {live : List LiveBatch},
    live.Pairwise (fun batch older => older.commitEpoch < batch.commitEpoch) →
    ∀ {value : Option RelationalRow},
      live.findSome? (·.overlayValue table key) = some value →
        ∃ change, IsNewestChange (live.flatMap (·.changesOf table)) key change ∧
          change.value = value
  | [], _, _, h => nomatch h
  | batch :: live, hepochs, value, h => by
    obtain ⟨hfirst, hrest⟩ := pairwise_cons.1 hepochs
    rw [findSome?_cons] at h
    rw [flatMap_cons]
    rcases hbatch : batch.overlayValue table key with _ | v
    · rw [hbatch] at h
      obtain ⟨change, hchange, hvalue⟩ := newest_of_live hrest h
      refine ⟨change, ⟨mem_append_right _ hchange.mem, hchange.key_eq,
        fun other hother heq => ?_⟩, hvalue⟩
      rcases mem_append.1 hother with hother | hother
      · exact absurd heq (LiveBatch.overlayValue_eq_none hbatch other hother)
      · exact hchange.newest other hother heq
    · rw [hbatch] at h
      cases h
      obtain ⟨change, hchange, hkey, hepoch, hvalue⟩ := LiveBatch.overlayValue_eq_some hbatch
      refine ⟨change, ⟨mem_append_left _ hchange, hkey, fun other hother _ => ?_⟩, hvalue⟩
      rw [hepoch]
      rcases mem_append.1 hother with hother | hother
      · obtain ⟨c, -, -, rfl⟩ := LiveBatch.mem_changesOf.1 hother
        exact le_rfl
      · obtain ⟨older, holder, hother⟩ := mem_flatMap.1 hother
        obtain ⟨c, -, -, rfl⟩ := LiveBatch.mem_changesOf.1 hother
        exact (hfirst older holder).le

lemma not_changed_of_live {live : List LiveBatch}
    (h : live.findSome? (·.overlayValue table key) = none) :
    ∀ change ∈ live.flatMap (·.changesOf table), compare change.key key ≠ .eq := by
  intro change hchange
  obtain ⟨batch, hbatch, hchange⟩ := mem_flatMap.1 hchange
  exact LiveBatch.overlayValue_eq_none (findSome?_eq_none_iff.1 h batch hbatch) change hchange

variable {view : RowPageView}

lemma epoch_lt_of_live (hdelta : reader ∈ view.delta) {other : RowChangeEntry}
    (hchange : change ∈ reader.changesOf table)
    (hother : other ∈ view.live.flatMap (·.changesOf table)) : change.epoch < other.epoch := by
  obtain ⟨hopened, -⟩ := view.deltaOpened reader hdelta
  obtain ⟨run, hrun, entry, hentry, -, hdecoded⟩ := (mem_changesOf hopened).1 hchange
  obtain ⟨batch, hbatch, hother⟩ := mem_flatMap.1 hother
  obtain ⟨c, -, -, rfl⟩ := LiveBatch.mem_changesOf.1 hother
  rw [hdecoded.epoch]
  exact (hopened.entries run hrun entry hentry).2.2.2.trans_lt
    ((view.liveFloor batch hbatch).2.2 reader hdelta)

lemma overlayValue_spec (h : view.overlayValue table key = .ok result) :
    match result with
    | none => ∀ change ∈ view.changes table, compare change.key key ≠ .eq
    | some value => ∃ change, IsNewestChange (view.changes table) key change ∧
        change.value = value := by
  rw [overlayValue] at h
  rw [changes, deltaChanges]
  rcases hlive : view.live.findSome? (·.overlayValue table key) with _ | value
  · have hnot := not_changed_of_live hlive
    rw [hlive] at h
    rcases hdelta : view.delta with _ | reader
    · rw [hdelta] at h
      cases h
      simpa using hnot
    rw [hdelta] at h
    have hspec := lookup_spec (view.deltaOpened reader hdelta).1 h
    cases result with
    | none =>
      exact fun change hchange => (mem_append.1 hchange).elim (hspec change) (hnot change)
    | some value =>
      obtain ⟨change, hchange, hvalue⟩ := hspec
      refine ⟨change, ⟨mem_append_left _ hchange.mem, hchange.key_eq,
        fun other hother heq => ?_⟩, hvalue⟩
      rcases mem_append.1 hother with hother | hother
      · exact hchange.newest other hother heq
      · exact absurd heq (hnot other hother)
  · rw [hlive] at h
    cases h
    obtain ⟨change, hchange, hvalue⟩ := newest_of_live view.liveEpochs hlive
    refine ⟨change, ⟨mem_append_right _ hchange.mem, hchange.key_eq,
      fun other hother heq => ?_⟩, hvalue⟩
    rcases mem_append.1 hother with hother | hother
    · rcases hdelta : view.delta with _ | reader
      · rw [hdelta] at hother
        cases hother
      · rw [hdelta] at hother
        exact (epoch_lt_of_live hdelta hother hchange.mem).le
    · exact hchange.newest other hother heq

end

/-! ### Point reads -/

section

variable {view : RowPageView} {key : RelationalKey}
  {root : RowTableRoot}

lemma isKeyBytes_of_mem_rows {entry : RowPageEntry} (h : entry ∈ root.rows) :
    IsKeyBytes entry.1 := by
  obtain ⟨page, -, hentry⟩ := mem_flatMap.1 h
  exact page.keys entry hentry

lemma tableRoot_eq_ok (h : view.tableRoot table = .ok root) : view.base.get table = some root := by
  rw [tableRoot] at h
  split at h
  · cases h
  · rename_i candidate hget
    rw [hget, Except.ok.inj h]

lemma encodeKey_eq_ok (h : encodeKey key = .ok encoded) :
    encodeOrderedRelationalKey key = .ok encoded := by
  rw [encodeKey] at h
  split at h
  · cases h
  · rename_i x hx
    rw [hx, Except.ok.inj h]

lemma baseRow_eq (hroot : view.base.get table = some root)
    (hkey : encodeOrderedRelationalKey key = .ok encoded) :
    view.baseRow table key = (findEntry encoded root.rows).map Prod.snd := by
  rw [baseRow, hroot, Option.bind_some, findEntry]
  congr 1
  refine find?_congr fun entry hentry => ?_
  obtain ⟨candidate, hdecode, hencode⟩ := isKeyBytes_of_mem_rows hentry
  rw [hdecode, compare_encodeOrderedRelationalKey hencode hkey]

lemma pageContaining_spec (h : view.pageContaining root encoded = .ok result) :
    match result with
    | none => findEntry encoded root.rows = none
    | some (i, page) => root.pages[i]? = some page ∧
        findEntry encoded root.rows = findEntry encoded page.rows := by
  have hcontains : ∀ {i found}, IsFoundPage root.pages encoded i found →
      ∀ entry ∈ root.rows, compare entry.1 encoded = .eq → entry ∈ found.rows ∧
        (compare found.lowerBound encoded).isLE ∧ (compare encoded found.upperBound).isLE := by
    intro i found hfound entry hentry heq
    obtain ⟨page, hpage, hentry⟩ := mem_flatMap.1 hentry
    obtain ⟨j, hj⟩ := mem_iff_getElem?.1 hpage
    have hbytes := Std.LawfulEqOrd.eq_of_compare heq
    have hlower := hbytes ▸ page.lowerBound_le hentry
    have hupper := hbytes ▸ page.le_upperBound hentry
    obtain rfl := hfound.eq_of_contains root.sorted hj hlower hupper
    cases hfound.found.symm.trans hj
    exact ⟨hentry, hlower, hupper⟩
  obtain ⟨found, hfound, h⟩ := bind_eq_ok.1 h
  rcases findTablePage_eq_ok hfound with ⟨hpages, rfl⟩ | ⟨i, page, rfl, hpage⟩
  · cases h
    rw [RowTableRoot.rows, hpages]
    rfl
  dsimp only at h
  rw [hpage.found] at h
  dsimp only at h
  split_ifs at h with houtside
  · cases h
    refine findEntry_eq_none fun entry hentry heq => ?_
    obtain ⟨-, hlower, hupper⟩ := hcontains hpage entry hentry heq
    rcases houtside with hlt | hgt
    · exact not_compare_self_lt (Std.TransCmp.lt_of_lt_of_isLE hlt hlower)
    · exact not_compare_self_lt (Std.TransCmp.lt_of_isLE_of_lt hupper (compare_gt_iff.1 hgt))
  · cases h
    refine ⟨hpage.found, Option.ext fun entry => ?_⟩
    rw [findEntry_eq_some_iff root.sortedKeys_rows, findEntry_eq_some_iff page.sorted]
    constructor
    · exact fun ⟨hentry, heq⟩ => ⟨(hcontains hpage entry hentry heq).1, heq⟩
    · exact fun ⟨hentry, heq⟩ =>
        ⟨mem_flatMap.2 ⟨page, mem_of_getElem? hpage.found, hentry⟩, heq⟩

variable {row : Option ProjectedRow}

lemma pageRow_eq_ok (hfields : AreFields page.columnCount fields)
    (h : view.pageRow page fields encoded = .ok row) :
    row = (findEntry encoded page.rows).map fun entry => projectFields fields entry.2 := by
  obtain ⟨found, hfound, h⟩ := bind_eq_ok.1 h
  obtain ⟨-, -, hfound⟩ := bind_eq_ok.1 hfound
  have hloop : RowPage.findRowLoop page.rows encoded 0 page.rows.length =
      findEntry encoded page.rows :=
    findRowLoop_eq page.sorted (fun _ _ _ hj => absurd hj (Nat.not_lt_zero _))
      (fun j a ha hj => absurd (List.getElem?_eq_some_iff.1 ha).1 (not_lt.2 hj)) le_rfl
  rw [← hloop, Except.ok.inj hfound]
  cases found with
  | none => exact (Except.ok.inj h).symm
  | some entry =>
    obtain ⟨projected, hprojected, rfl⟩ := map_eq_ok.1 h
    rw [decodeRowFields_eq_ok hfields hprojected]
    rfl

lemma basePoint_spec (h : view.basePoint table key fields = .ok row) :
    row = (view.baseRow table key).map (projectFields fields) := by
  obtain ⟨root, hroot, _, hvalidate, h⟩ := bind₂_eq_ok.1 h
  obtain ⟨encoded, hencoded, found, hfound, h⟩ := bind₂_eq_ok.1 h
  have hspec := pageContaining_spec hfound
  rw [baseRow_eq (tableRoot_eq_ok hroot) (encodeKey_eq_ok hencoded), Option.map_map]
  rcases found with _ | ⟨i, page⟩
  · cases h
    rw [hspec]
    rfl
  obtain ⟨_, hcount, h⟩ := bind_eq_ok.1 h
  rw [hspec.2]
  refine pageRow_eq_ok ?_ h
  rw [validateColumnCount_eq_ok hcount]
  exact validateRequestedFields_eq_ok hvalidate

lemma point_spec (hview : view.NoKeyTwiceAtEpoch) (h : view.point table key fields = .ok row) :
    row = (view.rowAt table key).map (projectFields fields) := by
  obtain ⟨overlay, hoverlay, h⟩ := bind_eq_ok.1 h
  have hspec := overlayValue_spec hoverlay
  cases overlay with
  | none =>
    rw [rowAt_of_unchanged hspec]
    exact basePoint_spec h
  | some value =>
    obtain ⟨change, hchange, rfl⟩ := hspec
    obtain ⟨root, -, -, -, h⟩ := bind₂_eq_ok.1 h
    rw [rowAt_of_newest hview hchange]
    exact projectOverlayValue_eq_ok h

end

/-! ### Multi-point reads -/

section

variable {view : RowPageView} {root : RowTableRoot}
  {f : RelationalKey → Option ProjectedRow} {asked : RelationalKey → Prop}
  {rows next : OrdMap RelationalKey ProjectedRow} {key : RelationalKey}

lemma baseRow_congr (h : compare a b = .eq) : view.baseRow table a = view.baseRow table b := by
  rw [baseRow, baseRow]
  simp only [Std.TransCmp.congr_right h]

lemma rowAt_congr (h : compare a b = .eq) : view.rowAt table a = view.rowAt table b := by
  rw [rowAt, rowAt, baseRow_congr h]
  simp only [Std.TransCmp.congr_right h]

def ReadsRows (f : RelationalKey → Option ProjectedRow) (asked : RelationalKey → Prop)
    (rows : OrdMap RelationalKey ProjectedRow) : Prop :=
  ∀ key row, rows.get key = some row ↔ asked key ∧ f key = some row

def AskedBy (keys : List RelationalKey) (key : RelationalKey) : Prop :=
  ∃ k ∈ keys, compare k key = .eq

variable {keys : List RelationalKey}

lemma askedBy_cons : AskedBy (k :: keys) key ↔ compare k key = .eq ∨ AskedBy keys key := by
  simp [AskedBy]

lemma ReadsRows.congr {asked' : RelationalKey → Prop} (h : ReadsRows f asked rows)
    (hasked : ∀ key row, f key = some row → (asked key ↔ asked' key)) : ReadsRows f asked' rows :=
  fun key row => (h key row).trans (and_congr_left fun hrow => hasked key row hrow)

lemma readsRows_empty : ReadsRows f (AskedBy []) .empty := fun key row => by
  simp [AskedBy, OrdMap.empty, OrdMap.get, findEntry]

section

variable (hf : ∀ a b : RelationalKey, compare a b = .eq → f a = f b)

include hf

lemma ReadsRows.insert (h : ReadsRows f asked rows) (hrow : f k = some row) :
    ReadsRows f (fun key => asked key ∨ compare k key = .eq) (rows.insert k row) := by
  intro key row'
  rw [get_insert]
  split_ifs with heq
  · have hvalue := (hf key k heq).trans hrow
    rw [hvalue]
    exact ⟨fun h => ⟨.inr (compare_swap_eq.1 heq), h⟩, fun h => h.2⟩
  · have hne : ¬ compare k key = .eq := fun h => heq (compare_swap_eq.1 h)
    exact (h key row').trans (and_congr_left' (or_iff_left hne).symm)

lemma ReadsRows.skip (h : ReadsRows f asked rows) (hrow : f k = none) :
    ReadsRows f (fun key => asked key ∨ compare k key = .eq) rows := by
  refine h.congr fun key row hkey => ?_
  rw [or_iff_left]
  intro heq
  cases (hrow.symm.trans (hf k key heq)).trans hkey

lemma ReadsRows.foldl_insert : ∀ {entries : List (RelationalKey × ProjectedRow)}
    {rows : OrdMap RelationalKey ProjectedRow} {asked : RelationalKey → Prop},
    ReadsRows f asked rows → (∀ entry ∈ entries, f entry.1 = some entry.2) →
      ReadsRows f (fun key => asked key ∨ AskedBy (entries.map Prod.fst) key)
        (entries.foldl (fun rows entry => rows.insert entry.1 entry.2) rows)
  | [], _, _, h, _ => h.congr fun key _ _ => by simp [AskedBy]
  | entry :: entries, rows, asked, h, hentries => by
    obtain ⟨hentry, hrest⟩ := forall_mem_cons.1 hentries
    refine (ReadsRows.foldl_insert (h.insert hf hentry) hrest).congr fun key _ _ => ?_
    rw [map_cons, askedBy_cons, or_assoc]

end

lemma encodeKeys_spec : ∀ {keys encodedKeys next}, encodeKeys keys encodedKeys = .ok next →
      (∀ x k, next.get x = some k → encodedKeys.get x = some k ∨
        k ∈ keys ∧ encodeOrderedRelationalKey k = .ok x) ∧
      (∀ x k, encodedKeys.get x = some k → next.get x = some k) ∧
      ∀ k ∈ keys, ∃ x k', encodeOrderedRelationalKey k = .ok x ∧ next.get x = some k'
  | [], _, _, h => by
    cases h
    exact ⟨fun _ _ h => .inl h, fun _ _ h => h, nofun⟩
  | key :: keys, encodedKeys, next, h => by
    obtain ⟨x, hx, h⟩ := bind_eq_ok.1 h
    have hencode := encodeKey_eq_ok hx
    obtain ⟨hsound, hkeeps, hcomplete⟩ := encodeKeys_spec h
    rcases hget : encodedKeys.get x with _ | first
    · rw [hget] at hsound hkeeps
      refine ⟨fun y k hy => ?_, fun y k hy => hkeeps y k ?_,
        forall_mem_cons.2 ⟨⟨x, key, hencode, hkeeps x key ?_⟩, hcomplete⟩⟩
      · rcases hsound y k hy with hy | ⟨hk, hy⟩
        · rw [get_insert_eq] at hy
          split_ifs at hy with heq
          · cases hy
            exact .inr ⟨mem_cons_self, heq ▸ hencode⟩
          · exact .inl hy
        · exact .inr ⟨mem_cons_of_mem _ hk, hy⟩
      · rw [get_insert_eq, if_neg]
        · exact hy
        · rintro rfl
          cases hget.symm.trans hy
      · rw [get_insert_eq, if_pos rfl]
    · rw [hget] at hsound hkeeps
      refine ⟨fun y k hy => ?_, hkeeps,
        forall_mem_cons.2 ⟨⟨x, first, hencode, hkeeps x first hget⟩, hcomplete⟩⟩
      exact (hsound y k hy).imp_right fun ⟨hk, hy⟩ => ⟨mem_cons_of_mem _ hk, hy⟩

def InGroup (groups : OrdMap ℕ PageGroup) (i : ℕ) (e : Bytes × RelationalKey) : Prop :=
  ∃ group, groups.get i = some group ∧ e ∈ group

lemma inGroup_insert {groups : OrdMap ℕ PageGroup} :
    InGroup (groups.insert i ((groups.get i).getD [] ++ [e])) j e' ↔
      InGroup groups j e' ∨ j = i ∧ e' = e := by
  rw [InGroup, InGroup, get_insert_eq]
  split_ifs with heq
  · subst heq
    rcases groups.get j with _ | group <;> simp
  · simp [heq]

lemma groupKeys_spec : ∀ {keys groups next}, view.groupKeys root keys groups = .ok next →
      (∀ i e, InGroup next i e → InGroup groups i e ∨ e ∈ keys ∧ ∃ page,
        root.pages[i]? = some page ∧ findEntry e.1 root.rows = findEntry e.1 page.rows) ∧
      (∀ i e, InGroup groups i e → InGroup next i e) ∧
      ∀ e ∈ keys, findEntry e.1 root.rows ≠ none → ∃ i, InGroup next i e
  | [], _, _, h => by
    cases h
    exact ⟨fun _ _ h => .inl h, fun _ _ h => h, nofun⟩
  | (x, k) :: keys, groups, next, h => by
    obtain ⟨found, hfound, h⟩ := bind_eq_ok.1 h
    have hpage := pageContaining_spec hfound
    rcases found with _ | ⟨i, page⟩
    · obtain ⟨hsound, hkeeps, hcomplete⟩ := groupKeys_spec h
      refine ⟨fun j e he => (hsound j e he).imp_right fun ⟨hmem, hp⟩ =>
        ⟨mem_cons_of_mem _ hmem, hp⟩, hkeeps, forall_mem_cons.2 ⟨?_, hcomplete⟩⟩
      exact fun hne => absurd hpage hne
    · obtain ⟨hsound, hkeeps, hcomplete⟩ := groupKeys_spec h
      refine ⟨fun j e he => ?_, fun j e he => hkeeps j e (inGroup_insert.2 (.inl he)),
        forall_mem_cons.2 ⟨fun _ => ⟨i, hkeeps i _ (inGroup_insert.2 (.inr ⟨rfl, rfl⟩))⟩,
          hcomplete⟩⟩
      rcases hsound j e he with he | ⟨hmem, hp⟩
      · rcases inGroup_insert.1 he with he | ⟨rfl, rfl⟩
        · exact .inl he
        · exact .inr ⟨mem_cons_self, page, hpage⟩
      · exact .inr ⟨mem_cons_of_mem _ hmem, hp⟩

lemma map_baseRow_congr (a b : RelationalKey) (h : compare a b = .eq) :
    (view.baseRow table a).map (projectFields fields) =
      (view.baseRow table b).map (projectFields fields) := by
  rw [baseRow_congr h]

lemma readGroup_spec (hroot : view.base.get table = some root)
    (hfields : AreFields page.columnCount fields) : ∀ {keys rows next}
      {asked : RelationalKey → Prop},
      ReadsRows (fun key => (view.baseRow table key).map (projectFields fields)) asked rows →
      (∀ e ∈ keys, encodeOrderedRelationalKey e.2 = .ok e.1 ∧
        findEntry e.1 root.rows = findEntry e.1 page.rows) →
      view.readGroup page fields keys rows = .ok next →
        ReadsRows (fun key => (view.baseRow table key).map (projectFields fields))
          (fun key => asked key ∨ AskedBy (keys.map Prod.snd) key) next
  | [], _, _, _, hreads, _, h => by
    cases h
    exact hreads.congr fun key _ _ => by simp [AskedBy]
  | (x, k) :: keys, rows, next, asked, hreads, hkeys, h => by
    obtain ⟨⟨hencode, hpage⟩, hrest⟩ := forall_mem_cons.1 hkeys
    obtain ⟨row, hrow, h⟩ := bind_eq_ok.1 h
    have hvalue : (view.baseRow table k).map (projectFields fields) = row := by
      rw [pageRow_eq_ok hfields hrow, baseRow_eq hroot hencode, Option.map_map, hpage]
      rfl
    have hasked : ∀ key, ((asked key ∨ compare k key = .eq) ∨
        AskedBy (keys.map Prod.snd) key) ↔ (asked key ∨ AskedBy (((x, k) :: keys).map Prod.snd) key) :=
      fun key => by rw [map_cons, askedBy_cons, or_assoc]
    cases row with
    | none =>
      exact (readGroup_spec hroot hfields (hreads.skip map_baseRow_congr hvalue) hrest h).congr
        fun key _ _ => hasked key
    | some row =>
      exact (readGroup_spec hroot hfields (hreads.insert map_baseRow_congr hvalue) hrest h).congr
        fun key _ _ => hasked key

lemma readGroups_spec (hroot : view.base.get table = some root)
    (hfields : AreFields root.columnCount fields) : ∀ {groups rows next}
      {asked : RelationalKey → Prop},
      ReadsRows (fun key => (view.baseRow table key).map (projectFields fields)) asked rows →
      (∀ group ∈ groups, ∀ e ∈ group.2, encodeOrderedRelationalKey e.2 = .ok e.1 ∧ ∃ page,
        root.pages[group.1]? = some page ∧ findEntry e.1 root.rows = findEntry e.1 page.rows) →
      view.readGroups table root fields groups rows = .ok next →
        ReadsRows (fun key => (view.baseRow table key).map (projectFields fields))
          (fun key => asked key ∨ AskedBy ((groups.flatMap Prod.snd).map Prod.snd) key) next
  | [], _, _, _, hreads, _, h => by
    cases h
    exact hreads.congr fun key _ _ => by simp [AskedBy]
  | (i, group) :: groups, rows, next, asked, hreads, hgroups, h => by
    obtain ⟨hgroup, hrest⟩ := forall_mem_cons.1 hgroups
    rw [readGroups] at h
    rcases hpage : root.pages[i]? with _ | page
    · rw [hpage] at h
      cases h
    rw [hpage] at h
    obtain ⟨_, hcount, read, hread, h⟩ := bind₂_eq_ok.1 h
    have hpageFields : AreFields page.columnCount fields := by
      rw [validateColumnCount_eq_ok hcount]
      exact hfields
    have hkeys : ∀ e ∈ group, encodeOrderedRelationalKey e.2 = .ok e.1 ∧
        findEntry e.1 root.rows = findEntry e.1 page.rows := fun e he => by
      obtain ⟨hencode, page', hpage', hfind⟩ := hgroup e he
      cases hpage.symm.trans hpage'
      exact ⟨hencode, hfind⟩
    refine (readGroups_spec hroot hfields (readGroup_spec hroot hpageFields hreads hkeys hread)
      hrest h).congr fun key _ _ => ?_
    rw [flatMap_cons, map_append, or_assoc]
    simp only [AskedBy, mem_append, or_and_right, exists_or]

lemma basePoints_spec (h : view.basePoints table keys fields = .ok rows) :
    ReadsRows (fun key => (view.baseRow table key).map (projectFields fields)) (AskedBy keys) rows := by
  obtain ⟨root, hroot, _, hvalidate, h⟩ := bind₂_eq_ok.1 h
  obtain ⟨encodedKeys, hencoded, groups, hgroups, h⟩ := bind₂_eq_ok.1 h
  have hroot := tableRoot_eq_ok hroot
  obtain ⟨hencode, -, hkeys⟩ := encodeKeys_spec hencoded
  obtain ⟨hsound, -, hcomplete⟩ := groupKeys_spec hgroups
  have hentry : ∀ {e}, e ∈ encodedKeys.entries →
      e.2 ∈ keys ∧ encodeOrderedRelationalKey e.2 = .ok e.1 := fun {e} he => by
    have hget : encodedKeys.get e.1 = some e.2 :=
      get_eq_some_iff.2 ⟨e.1, he, Std.ReflOrd.compare_self⟩
    exact (hencode e.1 e.2 hget).resolve_left nofun
  have hgroup : ∀ {i e}, InGroup groups i e →
      e ∈ encodedKeys.entries ∧ ∃ page, root.pages[i]? = some page ∧
        findEntry e.1 root.rows = findEntry e.1 page.rows := fun {i e} he =>
    (hsound i e he).resolve_left fun ⟨_, h, _⟩ => nomatch h
  have hmem : ∀ {group e},
      group ∈ groups.entries → e ∈ group.2 → InGroup groups group.1 e := fun {group e} hg he =>
    ⟨group.2, get_eq_some_iff.2 ⟨group.1, hg, Std.ReflOrd.compare_self⟩, he⟩
  refine (readGroups_spec hroot (validateRequestedFields_eq_ok hvalidate) readsRows_empty
    (fun group hg e he => ?_) h).congr fun key row hrow => ?_
  · obtain ⟨he, hpage⟩ := hgroup (hmem hg he)
    exact ⟨(hentry he).2, hpage⟩
  · constructor
    · rintro (⟨_, hnil, -⟩ | ⟨k, hk, heq⟩)
      · cases hnil
      · obtain ⟨e, he, rfl⟩ := mem_map.1 hk
        obtain ⟨group, hg, he⟩ := mem_flatMap.1 he
        exact ⟨e.2, (hentry (hgroup (hmem hg he)).1).1, heq⟩
    · rintro ⟨k, hk, heq⟩
      obtain ⟨x, k', hx, hget⟩ := hkeys k hk
      obtain ⟨x', he, hxx⟩ := get_eq_some_iff.1 hget
      obtain rfl := Std.LawfulEqOrd.eq_of_compare hxx
      have hk' : encodeOrderedRelationalKey k' = .ok x' := (hentry he).2
      have heq' : compare k' k = .eq := by
        rw [← compare_encodeOrderedRelationalKey hk' hx]
        exact Std.ReflOrd.compare_self
      have hne : findEntry x' root.rows ≠ none := by
        intro hnone
        have hkey := encodeOrderedRelationalKey_congr heq hx
        rw [baseRow_eq hroot hkey, hnone] at hrow
        cases hrow
      obtain ⟨i, group, hgetGroup, hmemGroup⟩ := hcomplete (x', k') he hne
      obtain ⟨j, hg, -⟩ := get_eq_some_iff.1 hgetGroup
      exact .inr ⟨k', mem_map.2 ⟨(x', k'), mem_flatMap.2 ⟨_, hg, hmemGroup⟩, rfl⟩,
        Std.TransCmp.eq_trans heq' heq⟩

lemma map_rowAt_congr (a b : RelationalKey) (h : compare a b = .eq) :
    (view.rowAt table a).map (projectFields fields) =
      (view.rowAt table b).map (projectFields fields) := by
  rw [rowAt_congr h]

lemma overlayPoints_spec (hview : view.NoKeyTwiceAtEpoch) : ∀ {keys rows next}
      {baseKeys left : List RelationalKey} {asked : RelationalKey → Prop},
      ReadsRows (fun key => (view.rowAt table key).map (projectFields fields)) asked rows →
      (∀ k ∈ baseKeys, ∀ change ∈ view.changes table, compare change.key k ≠ .eq) →
      view.overlayPoints table columnCount fields keys rows baseKeys = .ok (next, left) →
        ∃ taken, ReadsRows (fun key => (view.rowAt table key).map (projectFields fields))
            (fun key => asked key ∨ AskedBy taken key) next ∧
          (∀ k ∈ left, ∀ change ∈ view.changes table, compare change.key k ≠ .eq) ∧
          ∀ k, k ∈ taken ∨ k ∈ left ↔ k ∈ keys ∨ k ∈ baseKeys
  | [], _, _, _, _, _, hreads, hbase, h => by
    cases h
    exact ⟨[], hreads.congr fun key _ _ => by simp [AskedBy], hbase, fun k => Iff.rfl⟩
  | key :: keys, rows, next, baseKeys, left, asked, hreads, hbase, h => by
    obtain ⟨overlay, hoverlay, h⟩ := bind_eq_ok.1 h
    have hspec := overlayValue_spec hoverlay
    cases overlay with
    | none =>
      obtain ⟨taken, htaken, hleft, hkeys⟩ := overlayPoints_spec hview hreads
        (forall_mem_append.2 ⟨hbase, fun k hk => mem_singleton.1 hk ▸ hspec⟩) h
      refine ⟨taken, htaken, hleft, fun k => (hkeys k).trans ?_⟩
      simp only [mem_append, mem_cons, not_mem_nil, or_false]
      tauto
    | some value =>
      obtain ⟨change, hchange, rfl⟩ := hspec
      obtain ⟨projected, hprojected, h⟩ := bind_eq_ok.1 h
      have hvalue : (view.rowAt table key).map (projectFields fields) = projected := by
        rw [rowAt_of_newest hview hchange, projectOverlayValue_eq_ok hprojected]
      have hstep : ∃ step, ReadsRows (fun key => (view.rowAt table key).map (projectFields fields))
          (fun k => asked k ∨ compare key k = .eq) step ∧
          view.overlayPoints table columnCount fields keys step baseKeys = .ok (next, left) := by
        cases projected with
        | none => exact ⟨rows, hreads.skip map_rowAt_congr hvalue, h⟩
        | some row => exact ⟨_, hreads.insert map_rowAt_congr hvalue, h⟩
      obtain ⟨step, hstep, h⟩ := hstep
      obtain ⟨taken, htaken, hleft, hkeys⟩ := overlayPoints_spec hview hstep hbase h
      refine ⟨key :: taken, htaken.congr fun k _ _ => ?_, hleft, fun k => ?_⟩
      · rw [askedBy_cons, or_assoc]
      · rw [mem_cons, mem_cons, or_assoc, hkeys k, or_assoc]

lemma mem_ofList_keys :
    AskedBy ((ofList (keys.map (·, ()))).entries.map Prod.fst) key ↔ AskedBy keys key := by
  have hget : AskedBy ((ofList (keys.map (·, ()))).entries.map Prod.fst) key ↔
      (ofList (keys.map (·, ()))).get key = some () := by
    rw [get_eq_some_iff, AskedBy]
    constructor
    · rintro ⟨k, hk, heq⟩
      obtain ⟨⟨k', u⟩, he, rfl⟩ := mem_map.1 hk
      exact ⟨k', he, heq⟩
    · rintro ⟨k, hk, heq⟩
      exact ⟨k, mem_map.2 ⟨_, hk, rfl⟩, heq⟩
  rw [hget, get_ofList]
  rcases hlast : lastValue key (keys.map (·, ())) with _ | u
  · have hnone := lastValue_eq_none.1 hlast
    simp only [reduceCtorEq, AskedBy, false_iff, not_exists, not_and]
    exact fun k hk heq =>
      hnone (k, ()) (mem_map.2 ⟨k, hk, rfl⟩) (compare_swap_eq.1 heq)
  · obtain ⟨e, he, heq, -⟩ := lastValue_eq_some hlast
    obtain ⟨k, hk, rfl⟩ := mem_map.1 he
    exact iff_of_true rfl ⟨k, hk, compare_swap_eq.1 heq⟩

lemma points_spec (hview : view.NoKeyTwiceAtEpoch) (h : view.points table keys fields = .ok rows)
    :
    ReadsRows (fun key => (view.rowAt table key).map (projectFields fields)) (AskedBy keys) rows := by
  obtain ⟨root, hroot, _, -, h⟩ := bind₂_eq_ok.1 h
  obtain ⟨⟨overlayRows, baseKeys⟩, hoverlay, h⟩ := bind_eq_ok.1 h
  obtain ⟨taken, htaken, hleft, hkeys⟩ := overlayPoints_spec hview readsRows_empty
    (fun _ hk => absurd hk not_mem_nil) hoverlay
  have hasked : ∀ key, AskedBy keys key ↔ AskedBy taken key ∨ AskedBy baseKeys key := fun key => by
    rw [← mem_ofList_keys]
    simp only [AskedBy, ← exists_or, ← or_and_right]
    exact exists_congr fun k => and_congr_left' ((or_iff_left not_mem_nil).symm.trans
      (hkeys k).symm)
  dsimp only at h
  split_ifs at h with hempty
  · cases h
    obtain rfl := isEmpty_iff.1 hempty
    exact htaken.congr fun key _ _ => by rw [hasked, or_comm]
  obtain ⟨baseRows, hbase, h⟩ := bind_eq_ok.1 h
  cases h
  have hbase := basePoints_spec hbase
  have hunchanged : ∀ key, AskedBy baseKeys key → view.rowAt table key = view.baseRow table key := by
    rintro key ⟨k, hk, heq⟩
    refine rowAt_of_unchanged fun change hchange heq' => hleft k hk change hchange ?_
    exact Std.TransCmp.eq_trans heq' (compare_swap_eq.1 heq)
  have hentries : ∀ entry ∈ baseRows.entries, AskedBy baseKeys entry.1 ∧
      (view.rowAt table entry.1).map (projectFields fields) = some entry.2 := by
    intro entry hentry
    have hget : baseRows.get entry.1 = some entry.2 :=
      get_eq_some_iff.2 ⟨entry.1, hentry, Std.ReflCmp.compare_self⟩
    obtain ⟨hasked, hrow⟩ := (hbase entry.1 entry.2).1 hget
    exact ⟨hasked, by rw [hunchanged entry.1 hasked]; exact hrow⟩
  refine (htaken.foldl_insert map_rowAt_congr fun entry hentry => (hentries entry hentry).2).congr
    fun key row hrow => ?_
  rw [hasked]
  constructor
  · rintro ((⟨_, hnil, -⟩ | htaken) | ⟨k, hk, heq⟩)
    · cases hnil
    · exact .inl htaken
    · obtain ⟨entry, hentry, rfl⟩ := mem_map.1 hk
      obtain ⟨⟨k, hk, heq'⟩, -⟩ := hentries entry hentry
      exact .inr ⟨k, hk, Std.TransCmp.eq_trans heq' heq⟩
  · rintro (htaken | hbaseKey)
    · exact .inl (.inr htaken)
    · have hget : baseRows.get key = some row := by
        refine (hbase key row).2 ⟨hbaseKey, ?_⟩
        show (view.baseRow table key).map (projectFields fields) = some row
        rw [← hunchanged key hbaseKey]
        exact hrow
      obtain ⟨k, hk, heq⟩ := get_eq_some_iff.1 hget
      exact .inr ⟨k, mem_map.2 ⟨_, hk, rfl⟩, heq⟩

end

end HawDB
