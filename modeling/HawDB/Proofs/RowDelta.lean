import HawDB.RowPage
import HawDB.Proofs.RowOverlay
import HawDB.Proofs.OrderedKey

/-!
# The recovery row delta and its flushes

Wherever the builder flushes, its runs and its dirty map are the history of recorded changes cut
into segments (`Segmented`). A lookup takes the newest run that has the key; a range read takes
the greatest epoch, which two runs may share (`recovery_delta_reads_iff`).
-/

namespace HawDB

open List EncodedBound StreamingOverlayCursor RowDeltaReader OrdMap RowDeltaContext
open Std (LawfulEqOrd ReflOrd TransCmp)

section

lemma RelationalValue.isOrdered_of_compare_eq {a b : RelationalValue} (h : compare a b = .eq)
    (ha : a.isOrdered) : b.isOrdered := by
  have hkind : compare a.kindRank b.kindRank = .eq := (Ordering.then_eq_eq.1 h).1
  rw [LawfulEqOrd.compare_eq_iff_eq] at hkind
  cases a <;> cases b <;> first | rfl | exact absurd ha Bool.false_ne_true | nomatch hkind

lemma RelationalKey.isOrdered_of_compare_eq : ∀ {a b : RelationalKey}, compare a b = .eq →
    (∀ v ∈ a, v.isOrdered) → ∀ v ∈ b, v.isOrdered
  | [], [], _, _ => nofun
  | [], _ :: _, h, _ => nomatch h
  | _ :: _, [], h, _ => nomatch h
  | v :: a, w :: b, h, ha => by
    rw [List.compare_cons_cons] at h
    obtain ⟨hhead, htail⟩ := Ordering.then_eq_eq.1 h
    intro u hu
    rcases List.mem_cons.1 hu with rfl | hu
    · exact RelationalValue.isOrdered_of_compare_eq hhead (ha v mem_cons_self)
    · exact isOrdered_of_compare_eq htail (fun v hv => ha v (mem_cons_of_mem _ hv)) u hu

lemma encodeOrderedRelationalKey_congr
    (h : compare a b = .eq) (ha : encodeOrderedRelationalKey a = .ok x) :
    encodeOrderedRelationalKey b = .ok x := by
  obtain ⟨hne, xs, hxs, -⟩ := encodeOrderedRelationalKey_eq.1 ha
  have hordered : ∀ v ∈ a, v.isOrdered := by
    clear hne ha h
    induction hxs with
    | nil => exact nofun
    | cons hv _ ih => exact forall_mem_cons.2 ⟨(RelationalValue.of_encode hv).1, ih⟩
  have hne' : b ≠ [] := by
    rintro rfl
    cases a with
    | nil => exact hne rfl
    | cons => nomatch h
  obtain ⟨y, hy⟩ := exists_encodeOrderedRelationalKey hne'
    (RelationalKey.isOrdered_of_compare_eq h hordered)
  have hxy : compare x y = .eq := (compare_encodeOrderedRelationalKey ha hy).trans h
  rw [hy, LawfulEqOrd.eq_of_compare hxy]

lemma isKeyBytes_of_encode
    (h : encodeOrderedRelationalKey key = .ok x) (hdated : ∀ v ∈ key, v.isDated) :
    IsKeyBytes x := by
  obtain ⟨key', hdecode, heq⟩ := decodeOrderedRelationalKey_encode h hdated
  have hcompare : compare key' key = .eq := by simpa [RelationalKey.eq] using heq
  exact ⟨key', hdecode, encodeOrderedRelationalKey_congr (compare_swap_eq.1 hcompare) h⟩

end

/-! ### Lookups -/

variable {entry : RowDeltaEntry}

section

variable {context : RowDeltaContext} {table : String} {ordinal : ℕ}

lemma tableOrdinal_eq_some (h : context.tableOrdinal table = some ordinal) :
    ∃ t, context.tables[ordinal]? = some t ∧ t.table = table := by
  obtain ⟨hlt, hfound, -⟩ := findIdx?_eq_some_iff_getElem.1 h
  refine ⟨_, getElem?_eq_getElem hlt, ?_⟩
  exact LawfulEqOrd.eq_of_compare (of_decide_eq_true hfound)

lemma compare_table {i j : ℕ} {t u : RowDeltaTable} (ht : context.tables[i]? = some t)
    (hu : context.tables[j]? = some u) : compare t.table u.table = compare i j := by
  obtain ⟨hi, rfl⟩ := List.getElem?_eq_some_iff.1 ht
  obtain ⟨hj, rfl⟩ := List.getElem?_eq_some_iff.1 hu
  have hsorted := pairwise_iff_getElem.1 context.tablesSorted
  rcases lt_trichotomy i j with hij | rfl | hij
  · rw [compare_lt_iff_lt.2 hij, hsorted i j hi hj hij]
  · simp
  · rw [compare_gt_iff_gt.2 hij, compare_gt_iff, hsorted j i hj hi hij]

/-- An entry of the delta: its table exists and its key is decoded. -/
def RowDeltaContext.IsEntry (context : RowDeltaContext) (entry : RowDeltaEntry) : Prop :=
  entry.1.tableOrdinal < context.tables.length ∧ IsKeyBytes entry.1.encodedPrimaryKey

lemma lookupEntries_eq {key : RelationalKey} (htable : context.tableOrdinal table = some ordinal)
    (hkey : encodeOrderedRelationalKey key = .ok x) : ∀ {entries},
      SortedKeys entries → (∀ entry ∈ entries, context.IsEntry entry) →
        context.lookupEntries table key entries =
          .ok ((findEntry ⟨ordinal, x⟩ entries).map (·.2.row))
  | [], _, _ => rfl
  | (k, v) :: entries, hsorted, hentries => by
    obtain ⟨hlt, candidate, hdecode, hencode⟩ := hentries _ mem_cons_self
    obtain ⟨t, ht, hname⟩ := tableOrdinal_eq_some htable
    obtain ⟨u, hu⟩ : ∃ u, context.tables[k.tableOrdinal]? = some u := ⟨_, getElem?_eq_getElem hlt⟩
    have hcompare : (compare u.table table).then (compare candidate key) =
        compare k ⟨ordinal, x⟩ := by
      rw [← hname, compare_table hu ht, ← compare_encodeOrderedRelationalKey hencode hkey]
      rfl
    have ih := lookupEntries_eq htable hkey hsorted.of_cons fun entry hentry =>
      hentries entry (mem_cons_of_mem _ hentry)
    rw [lookupEntries, hu]
    rw [decodeDeltaPrimaryKey, hdecode]
    dsimp only
    rw [ok_bind, hcompare]
    rcases hc : compare k ⟨ordinal, x⟩ with _ | _ | _
    · rw [ih, findEntry, findEntry, find?_cons_of_neg (by simp [hc])]
    · rw [findEntry, find?_cons_of_pos (by simp [hc])]
      rfl
    · rw [findEntry_eq_none]
      · rfl
      · intro entry hentry heq
        rcases mem_cons.1 hentry with rfl | hentry
        · cases hc.symm.trans heq
        have hlt := (pairwise_cons.1 hsorted).1 entry hentry
        exact compare_ne_eq_of_lt (TransCmp.lt_trans (compare_gt_iff.1 hc) hlt) heq

lemma RowDeltaRun.lowerBound_le (run : RowDeltaRun) (h : entry ∈ run.entries.entries) :
    (compare run.lowerBound entry.1).isLE :=
  run.entries.sorted.head_isLE run.nonempty h

lemma RowDeltaRun.le_upperBound (run : RowDeltaRun) (h : entry ∈ run.entries.entries) :
    (compare entry.1 run.upperBound).isLE :=
  run.entries.sorted.isLE_getLast run.nonempty h

lemma RowDeltaRun.get_eq_none (run : RowDeltaRun)
    (h : compare target run.lowerBound = .lt ∨ compare target run.upperBound = .gt) :
    run.entries.get target = none := by
  rw [OrdMap.get, findEntry_eq_none, Option.map_none]
  intro entry hentry heq
  rcases h with h | h
  · have := TransCmp.lt_of_lt_of_isLE h (run.lowerBound_le hentry)
    exact compare_ne_eq_of_lt this heq
  · have := TransCmp.lt_of_isLE_of_lt (run.le_upperBound hentry) (compare_gt_iff.1 h)
    exact compare_ne_eq_of_lt this (compare_swap_eq.1 heq)

def RowDeltaContext.AreEntries (context : RowDeltaContext) (runs : List RowDeltaRun) : Prop :=
  ∀ run ∈ runs, ∀ entry ∈ run.entries.entries, context.IsEntry entry

lemma lookupRunsLoop_eq (htable : context.tableOrdinal table = some ordinal)
    (hkey : encodeOrderedRelationalKey key = .ok x) : ∀ {runs},
      context.AreEntries runs → context.lookupRunsLoop table key ⟨ordinal, x⟩ runs =
        .ok ((runs.findSome? fun run => run.entries.get ⟨ordinal, x⟩).map (·.row))
  | [], _ => rfl
  | run :: runs, hruns => by
    have ih := lookupRunsLoop_eq htable hkey fun run hrun =>
      hruns run (mem_cons_of_mem _ hrun)
    have hentries := lookupEntries_eq htable hkey run.entries.sorted (hruns run mem_cons_self)
    rw [lookupRunsLoop, findSome?_cons]
    split_ifs with hbounds
    · rw [ih, run.get_eq_none hbounds]
    rw [hentries, ok_bind]
    rw [OrdMap.get]
    rcases findEntry (⟨ordinal, x⟩ : RowDeltaKey) run.entries.entries with _ | e
    · exact ih
    · rfl

lemma lookupRuns_eq {x : Bytes} {runs : List RowDeltaRun}
    (hkey : encodeOrderedRelationalKey key = .ok x)
    (hlength : x.length ≤ context.config.maxKeyBytes) (hruns : context.AreEntries runs) :
    context.lookupRuns runs table key = .ok ((context.tableOrdinal table).bind fun ordinal =>
      (runs.reverse.findSome? fun run => run.entries.get ⟨ordinal, x⟩).map (·.row)) := by
  rw [lookupRuns]
  rcases htable : context.tableOrdinal table with _ | ordinal
  · rfl
  have hencode : context.encodeLookupKey key = .ok x := by
    rw [encodeLookupKey, hkey]
    exact if_neg (by omega)
  dsimp only
  rw [hencode, ok_bind, lookupRunsLoop_eq htable hkey fun run hrun =>
    hruns run (mem_reverse.1 hrun)]
  rfl

end

/-! ### The builder -/

variable {α β : Type*} {R : α → β → Prop}

section

variable {builder next : RowDeltaBuilder} {history : List RowDeltaEntry} {epoch : ℕ}

/-- The changes a sequence of calls records, each with its epoch. -/
def recordedChanges (calls : List (ℕ × RelationalRowChangeCapture)) :
    List (ℕ × RelationalRowChange) :=
  calls.flatMap fun call => match call.2 with
    | .captured changes => changes.map (call.1, ·)
    | _ => []

/-- The entry a recorded change becomes. -/
structure IsEntryOf (context : RowDeltaContext) (change : ℕ × RelationalRowChange)
    (entry : RowDeltaEntry) : Prop where
  table : context.tableOrdinal change.2.table = some entry.1.tableOrdinal
  key : encodeOrderedRelationalKey change.2.primaryKey = .ok entry.1.encodedPrimaryKey
  row : entry.2.row = change.2.row
  epoch : entry.2.lastModifiedEpoch = change.1

lemma isEntryOf_encodeChange (h : builder.encodeChange epoch change = .ok entry) :
    IsEntryOf builder.context (epoch, change) entry := by
  rw [RowDeltaBuilder.encodeChange] at h
  split at h
  · cases h
  rename_i ordinal htable
  split at h
  · cases h
  rename_i encoded hkey
  split_ifs at h
  split at h
  · obtain ⟨rowBytes, -, hentry⟩ := bind_eq_ok.1 h
    cases hentry
    exact ⟨htable, hkey, rfl, rfl⟩
  · cases h
    exact ⟨htable, hkey, rfl, rfl⟩

def RowDeltaBuilder.Segmented (builder : RowDeltaBuilder) (history : List RowDeltaEntry) : Prop :=
  ∃ (segments : List (List RowDeltaEntry)) (last : List RowDeltaEntry),
    history = segments.flatten ++ last ∧
    builder.runs.map (·.entries) = segments.map ofList ∧ builder.dirty = ofList last

lemma ofList_entries_eq_nil {l : List RowDeltaEntry} (h : (OrdMap.ofList l).entries = []) :
    l = [] := by
  rcases eq_nil_or_concat l with rfl | ⟨m, e, rfl⟩
  · rfl
  have hget : (ofList (m ++ [e])).get e.1 = some e.2 := by
    rw [ofList_append_singleton, get_insert, if_pos ReflOrd.compare_self]
  rw [concat_eq_append] at h
  rw [OrdMap.get, h] at hget
  cases hget

lemma flush_spec (h : builder.flush = .ok next) (hsegmented : builder.Segmented history) :
    next.context = builder.context ∧ next.visibleCommitEpoch = builder.visibleCommitEpoch ∧
      ∃ segments : List (List RowDeltaEntry), history = segments.flatten ∧
        next.runs.map (·.entries) = segments.map ofList ∧ next.dirty = ofList [] := by
  obtain ⟨segments, last, rfl, hruns, hdirty⟩ := hsegmented
  rw [RowDeltaBuilder.flush] at h
  split_ifs at h with hempty
  · cases h
    rw [hdirty] at hempty
    obtain rfl := ofList_entries_eq_nil hempty
    exact ⟨rfl, rfl, segments, append_nil _, hruns, hdirty⟩
  · cases h
    refine ⟨rfl, rfl, segments ++ [last], by simp, ?_, rfl⟩
    rw [map_append, map_append, hruns]
    exact congrArg (fun map => segments.map ofList ++ [map]) hdirty

lemma insertChange_spec (h : builder.insertChange entry = .ok next)
    (hsegmented : builder.Segmented history) :
    next.context = builder.context ∧ next.visibleCommitEpoch = builder.visibleCommitEpoch ∧
      next.Segmented (history ++ [entry]) := by
  rw [RowDeltaBuilder.insertChange] at h
  split_ifs at h with hcharge hfull
  · obtain ⟨flushed, hflush, hnext⟩ := bind_eq_ok.1 h
    obtain ⟨hcontext, hvisible, segments, rfl, hruns, hdirty⟩ := flush_spec hflush hsegmented
    cases hnext
    refine ⟨hcontext, hvisible, segments, [entry], rfl, hruns, ?_⟩
    exact congrArg (·.insert entry.1 entry.2) hdirty
  · cases h
    obtain ⟨segments, last, rfl, hruns, hdirty⟩ := hsegmented
    refine ⟨rfl, rfl, segments, last ++ [entry], append_assoc _ _ _, hruns, ?_⟩
    rw [ofList_append_singleton, ← hdirty]

lemma recordChanges_spec : ∀ {changes builder next}
    {history : List RowDeltaEntry}, RowDeltaBuilder.recordChanges epoch changes builder = .ok next →
      builder.Segmented history →
        next.context = builder.context ∧ next.visibleCommitEpoch = builder.visibleCommitEpoch ∧
        ∃ entries, Forall₂ (IsEntryOf builder.context) (changes.map (epoch, ·)) entries ∧
          next.Segmented (history ++ entries)
  | [], builder, next, history, h, hsegmented => by
    cases h
    exact ⟨rfl, rfl, [], .nil, by rwa [append_nil]⟩
  | change :: changes, builder, next, history, h, hsegmented => by
    obtain ⟨entry, hentry, inserted, hinsert, h⟩ := bind₂_eq_ok.1 h
    obtain ⟨hcontext, hvisible, hsegmented'⟩ := insertChange_spec hinsert hsegmented
    obtain ⟨hcontext', hvisible', entries, hentries, hnext⟩ := recordChanges_spec h hsegmented'
    rw [hcontext] at hcontext' hentries
    refine ⟨hcontext', hvisible'.trans hvisible, entry :: entries,
      .cons (isEntryOf_encodeChange hentry) hentries, ?_⟩
    rw [append_cons]
    exact hnext

lemma record_spec (h : builder.record epoch capture = .ok next)
    (hsegmented : builder.Segmented history) :
    (epoch = builder.visibleCommitEpoch ∨ epoch = builder.visibleCommitEpoch + 1) ∧
      next.visibleCommitEpoch = epoch ∧ next.context = builder.context ∧
      (recordedChanges [(epoch, capture)] ≠ [] → epoch ≠ builder.context.baseCommitEpoch) ∧
      ∃ entries, Forall₂ (IsEntryOf builder.context) (recordedChanges [(epoch, capture)])
        entries ∧ next.Segmented (history ++ entries) := by
  obtain ⟨_, hepoch, h⟩ := bind_eq_ok.1 h
  have hepoch' : epoch = builder.visibleCommitEpoch ∨ epoch = builder.visibleCommitEpoch + 1 := by
    rw [RowDeltaBuilder.requireCurrentOrNextEpoch] at hepoch
    dsimp only at hepoch
    split_ifs at hepoch with heq hover hgap
    · exact .inl heq
    · exact .inr (not_not.1 hgap)
  refine ⟨hepoch', ?_⟩
  cases capture with
  | requiresCheckpoint tables => nomatch h
  | invalidated reason => nomatch h
  | captured changes =>
    dsimp only at h
    split_ifs at h with hbase
    obtain ⟨recorded, hrecorded, hnext⟩ := bind_eq_ok.1 h
    cases hnext
    obtain ⟨hcontext, -, entries, hentries, hsegmented'⟩ := recordChanges_spec hrecorded hsegmented
    have hchanges : recordedChanges [(epoch, .captured changes)] = changes.map (epoch, ·) := by
      simp [recordedChanges]
    rw [hchanges]
    refine ⟨rfl, hcontext, fun hne heq => hbase ⟨heq, ?_⟩, entries, hentries, hsegmented'⟩
    rintro rfl
    exact hne rfl

lemma recordedChanges_cons (call : ℕ × RelationalRowChangeCapture)
    (calls : List (ℕ × RelationalRowChangeCapture)) :
    recordedChanges (call :: calls) = recordedChanges [call] ++ recordedChanges calls := by
  simp [recordedChanges]

lemma fst_of_mem_recordedChanges {change : ℕ × RelationalRowChange}
    (h : change ∈ recordedChanges [(epoch, capture)]) : change.1 = epoch := by
  cases capture with
  | captured changes =>
    simp only [recordedChanges, flatMap_cons, flatMap_nil, append_nil, mem_map] at h
    obtain ⟨_, -, rfl⟩ := h
    rfl
  | _ => simp [recordedChanges] at h

lemma recordAll_spec : ∀ {calls} {builder next : RowDeltaBuilder} {history : List RowDeltaEntry},
      RowDeltaBuilder.recordAll calls builder = .ok next → builder.Segmented history →
        next.context = builder.context ∧ builder.visibleCommitEpoch ≤ next.visibleCommitEpoch ∧
        ∃ entries, Forall₂ (IsEntryOf builder.context) (recordedChanges calls) entries ∧
          next.Segmented (history ++ entries)
  | [], builder, next, history, h, hsegmented => by
    cases h
    exact ⟨rfl, le_rfl, [], .nil, by rwa [append_nil]⟩
  | (epoch, capture) :: calls, builder, next, history, h, hsegmented => by
    obtain ⟨recorded, hrecorded, h⟩ := bind_eq_ok.1 h
    obtain ⟨hepoch, hvisible, hcontext, -, entries, hentries, hsegmented'⟩ :=
      record_spec hrecorded hsegmented
    obtain ⟨hcontext', hvisible', rest, hrest, hnext⟩ := recordAll_spec h hsegmented'
    rw [hcontext] at hcontext' hrest
    refine ⟨hcontext', by omega, entries ++ rest, ?_, by rwa [← append_assoc]⟩
    rw [recordedChanges_cons]
    exact rel_append hentries hrest

lemma recordAll_epochs : ∀ {calls}
    {builder next : RowDeltaBuilder} {history : List RowDeltaEntry},
      RowDeltaBuilder.recordAll calls builder = .ok next → builder.Segmented history →
      builder.context.baseCommitEpoch ≤ builder.visibleCommitEpoch →
        (recordedChanges calls).Pairwise (fun a b => a.1 ≤ b.1) ∧
        ∀ change ∈ recordedChanges calls, builder.visibleCommitEpoch ≤ change.1 ∧
          builder.context.baseCommitEpoch < change.1 ∧ change.1 ≤ next.visibleCommitEpoch
  | [], _, _, _, _, _, _ => ⟨.nil, nofun⟩
  | (epoch, capture) :: calls, builder, next, history, h, hsegmented, hbase => by
    obtain ⟨recorded, hrecorded, h⟩ := bind_eq_ok.1 h
    obtain ⟨hepoch, hvisible, hcontext, hnonbase, entries, -, hsegmented'⟩ :=
      record_spec hrecorded hsegmented
    obtain ⟨hpairwise, hrest⟩ := recordAll_epochs h hsegmented' (by rw [hcontext]; omega)
    have hlater := (recordAll_spec h hsegmented').2.1
    rw [hcontext] at hrest
    rw [recordedChanges_cons]
    refine ⟨pairwise_append.2 ⟨?_, hpairwise, fun a ha b hb => ?_⟩, fun change hchange => ?_⟩
    · exact pairwise_of_forall_mem_list fun a ha b hb => by
        rw [fst_of_mem_recordedChanges ha, fst_of_mem_recordedChanges hb]
    · rw [fst_of_mem_recordedChanges ha, ← hvisible]
      exact (hrest b hb).1
    · rcases mem_append.1 hchange with hchange | hchange
      · have := hnonbase (ne_nil_of_mem hchange)
        rw [fst_of_mem_recordedChanges hchange]
        omega
      · obtain ⟨h₁, h₂, h₃⟩ := hrest change hchange
        exact ⟨by omega, h₂, h₃⟩

lemma finish_spec {reader : RowDeltaReader} (h : builder.finish = .ok reader)
    (hsegmented : builder.Segmented history) :
    reader.context = builder.context ∧ reader.visibleCommitEpoch = builder.visibleCommitEpoch ∧
      ∃ segments : List (List RowDeltaEntry), history = segments.flatten ∧
        reader.runs.map (·.entries) = segments.map ofList := by
  obtain ⟨flushed, hflush, hreader⟩ := bind_eq_ok.1 h
  cases hreader
  obtain ⟨hcontext, hvisible, segments, hhistory, hruns, -⟩ := flush_spec hflush hsegmented
  exact ⟨hcontext, hvisible, segments, hhistory, hruns⟩

/-- The value of the last recorded change of a key, a row or a deletion. -/
def lastRecorded (changes : List (ℕ × RelationalRowChange)) (table : String)
    (key : RelationalKey) : Option (Option RelationalRow) :=
  (changes.reverse.find? fun change =>
    change.2.table = table ∧ compare change.2.primaryKey key = .eq).map (·.2.row)

lemma find?_map_congr {γ : Type*} {p : α → Bool} {q : β → Bool} {f : α → γ} {g : β → γ}
    (hp : ∀ a b, R a b → p a = q b) (hf : ∀ a b, R a b → f a = g b) :
    ∀ {l m}, Forall₂ R l m → (l.find? p).map f = (m.find? q).map g
  | [], [], .nil => rfl
  | a :: l, b :: m, .cons hab h => by
    rw [find?_cons, find?_cons, hp a b hab]
    cases q b
    · exact find?_map_congr hp hf h
    · exact congrArg some (hf a b hab)

lemma IsEntryOf.key_iff {context : RowDeltaContext} {change : ℕ × RelationalRowChange}
    (h : IsEntryOf context change entry) {table : String} {key : RelationalKey}
    (htable : context.tableOrdinal table = some ordinal)
    (hkey : encodeOrderedRelationalKey key = .ok x) :
    (change.2.table = table ∧ compare change.2.primaryKey key = .eq) ↔
      compare (⟨ordinal, x⟩ : RowDeltaKey) entry.1 = .eq := by
  rw [LawfulEqOrd.compare_eq_iff_eq (α := RowDeltaKey)]
  constructor
  · rintro ⟨rfl, hcompare⟩
    cases htable.symm.trans h.table
    cases hkey.symm.trans (encodeOrderedRelationalKey_congr hcompare h.key)
    rfl
  · intro heq
    have hordinal : ordinal = entry.1.tableOrdinal := congrArg RowDeltaKey.tableOrdinal heq
    have hx : x = entry.1.encodedPrimaryKey := congrArg RowDeltaKey.encodedPrimaryKey heq
    obtain ⟨t, ht, hname⟩ := tableOrdinal_eq_some htable
    obtain ⟨u, hu, hname'⟩ := tableOrdinal_eq_some h.table
    rw [← hordinal] at hu
    cases ht.symm.trans hu
    refine ⟨hname'.symm.trans hname, ?_⟩
    rw [← compare_encodeOrderedRelationalKey h.key hkey, ← hx]
    exact ReflOrd.compare_self

lemma lastRecorded_eq {context : RowDeltaContext}
    (h : Forall₂ (IsEntryOf context) changes history)
    (hkey : encodeOrderedRelationalKey key = .ok x) :
    lastRecorded changes table key = (context.tableOrdinal table).bind fun ordinal =>
      (lastValue ⟨ordinal, x⟩ history).map (·.row) := by
  rcases htable : context.tableOrdinal table with _ | ordinal
  · rw [lastRecorded, find?_eq_none.2, Option.map_none, Option.bind_none]
    intro change hchange hfound
    obtain ⟨entry, -, hentry⟩ := exists_of_mem_forall₂ h (mem_reverse.1 hchange)
    have htable' := hentry.table
    rw [(of_decide_eq_true hfound).1, htable] at htable'
    cases htable'
  · rw [lastRecorded, Option.bind_some, lastValue, Option.map_map]
    refine find?_map_congr (R := IsEntryOf context) (fun change entry hentry => ?_)
      (fun change entry hentry => hentry.row.symm) (forall₂_reverse_iff.2 h)
    exact decide_eq_decide.2 (hentry.key_iff htable hkey)

end

/-! ### Lookups give the last recorded change -/

variable {run : RowDeltaRun}

section

variable {context : RowDeltaContext} {changes : List (ℕ × RelationalRowChange)}
  {history : List RowDeltaEntry} {segments : List (List RowDeltaEntry)} {runs : List RowDeltaRun}

def AreDated (changes : List (ℕ × RelationalRowChange)) : Prop :=
  ∀ change ∈ changes, ∀ v ∈ change.2.primaryKey, v.isDated

lemma isEntry_of_mem (h : List.Forall₂ (IsEntryOf context) changes history)
    (hdated : AreDated changes) (hentry : entry ∈ history) : context.IsEntry entry := by
  obtain ⟨change, hchange, hof⟩ := exists_of_mem_forall₂ h.flip hentry
  obtain ⟨t, ht, -⟩ := tableOrdinal_eq_some hof.table
  exact ⟨(List.getElem?_eq_some_iff.1 ht).1, isKeyBytes_of_encode hof.key (hdated change hchange)⟩

lemma mem_flatten_of_mem_run (hruns : runs.map (·.entries) = segments.map ofList)
    (hrun : run ∈ runs) (hentry : entry ∈ run.entries.entries) : entry ∈ segments.flatten := by
  have hmem : run.entries ∈ segments.map ofList := hruns ▸ mem_map_of_mem hrun
  obtain ⟨segment, hsegment, heq⟩ := mem_map.1 hmem
  rw [← heq] at hentry
  exact mem_flatten_of_mem hsegment (mem_of_mem_ofList hentry)

lemma findSome?_get (hruns : runs.map (·.entries) = segments.map ofList) (key : RowDeltaKey) :
    (runs.reverse.findSome? fun run => run.entries.get key) = lastValue key segments.flatten := by
  have hmap : (runs.reverse.findSome? fun run => run.entries.get key) =
      (runs.map (·.entries)).reverse.findSome? fun map => map.get key := by
    rw [← map_reverse, findSome?_map]
    rfl
  rw [hmap, hruns, ← map_reverse, findSome?_map, lastValue_flatten]
  congr 1
  funext segment
  exact get_ofList segment key

lemma lookupRuns_lastRecorded (h : Forall₂ (IsEntryOf context) changes history)
    (hdated : AreDated changes) (hhistory : history = segments.flatten)
    (hruns : runs.map (·.entries) = segments.map ofList) (table : String) {x : Bytes}
    (hkey : encodeOrderedRelationalKey key = .ok x)
    (hlength : x.length ≤ context.config.maxKeyBytes) :
    context.lookupRuns runs table key = .ok (lastRecorded changes table key) := by
  have hentries : context.AreEntries runs := fun run hrun entry hentry =>
    isEntry_of_mem h hdated (hhistory ▸ mem_flatten_of_mem_run hruns hrun hentry)
  rw [lookupRuns_eq hkey hlength hentries, lastRecorded_eq h hkey, hhistory]
  simp only [findSome?_get hruns]

lemma lookupStaged_lastRecorded {builder : RowDeltaBuilder}
    (h : Forall₂ (IsEntryOf builder.context) changes history) (hdated : AreDated changes)
    (hsegmented : builder.Segmented history) (table : String) {x : Bytes}
    (hkey : encodeOrderedRelationalKey key = .ok x)
    (hlength : x.length ≤ builder.context.config.maxKeyBytes) :
    builder.lookupStaged table key = .ok (lastRecorded changes table key) := by
  obtain ⟨segments, last, hhistory, hruns, hdirty⟩ := hsegmented
  have hentries : builder.context.AreEntries builder.runs := fun run hrun entry hentry =>
    isEntry_of_mem h hdated
      (hhistory ▸ mem_append_left _ (mem_flatten_of_mem_run hruns hrun hentry))
  have hencode : builder.context.encodeLookupKey key = .ok x := by
    rw [encodeLookupKey, hkey]
    exact if_neg (by omega)
  rw [RowDeltaBuilder.lookupStaged, lastRecorded_eq h hkey, hhistory]
  rcases htable : builder.context.tableOrdinal table with _ | ordinal
  · rfl
  dsimp only
  rw [hencode, ok_bind, hdirty, get_ofList, Option.bind_some, lastValue_append]
  rcases lastValue (⟨ordinal, x⟩ : RowDeltaKey) last with _ | value
  · rw [lookupRuns_eq hkey hlength hentries, htable, Option.bind_some, findSome?_get hruns,
      Option.none_or]
  · rfl

end

/-! ### Range reads -/

section

variable {ordinal : ℕ} {lower upper : EncodedBound}

lemma EncodedBound.above_some :
    above (some (bound, inclusive)) x ↔ compare bound x = .lt ∨ inclusive = false ∧ x = bound := by
  simp [above, compare_gt_iff]

lemma EncodedBound.above_of_lt (h : upper.above x) (hxy : compare x y = .lt) : upper.above y := by
  rcases upper with _ | ⟨bound, inclusive⟩
  · cases h
  · rcases above_some.1 h with hlt | ⟨-, rfl⟩
    · exact above_some.2 (.inl (TransCmp.lt_trans hlt hxy))
    · exact above_some.2 (.inl hxy)

/-- A bound in its encoded form. -/
inductive KeyBound.EncodesTo : KeyBound → EncodedBound → Prop
  | unbounded : EncodesTo .unbounded none
  | included {key : RelationalKey} {x : Bytes} (h : encodeOrderedRelationalKey key = .ok x) :
    EncodesTo (.included key) (some (x, true))
  | excluded {key : RelationalKey} {x : Bytes} (h : encodeOrderedRelationalKey key = .ok x) :
    EncodesTo (.excluded key) (some (x, false))

lemma encodeRangeKey_eq_ok {reader : RowDeltaReader}
    (h : reader.encodeRangeKey key inclusive = .ok encoded) :
    ∃ y, encodeOrderedRelationalKey key = .ok y ∧ encoded = some (y, inclusive) := by
  rw [encodeRangeKey] at h
  split at h
  · cases h
  · rename_i y hy
    split_ifs at h
    exact ⟨y, hy, (Except.ok.inj h).symm⟩

variable {reader : RowDeltaReader} {encoded : EncodedBound}
  {key : RelationalKey} {x : Bytes}

lemma encodesTo_encodeRangeBound (h : reader.encodeRangeBound bound = .ok encoded) :
    bound.EncodesTo encoded := by
  cases bound with
  | unbounded =>
    cases h
    exact .unbounded
  | included lower =>
    obtain ⟨y, hy, rfl⟩ := encodeRangeKey_eq_ok h
    exact .included hy
  | excluded lower =>
    obtain ⟨y, hy, rfl⟩ := encodeRangeKey_eq_ok h
    exact .excluded hy

lemma below_above_eq (hbound : bound.EncodesTo encoded)
    (hkey : encodeOrderedRelationalKey key = .ok x) :
    encoded.below x = keyPrecedesLower key bound ∧ encoded.above x = keyExceedsUpper key bound := by
  cases hbound with
  | unbounded => exact ⟨rfl, rfl⟩
  | included hy =>
    simp [below, above, keyPrecedesLower, keyExceedsUpper,
      compare_encodeOrderedRelationalKey hkey hy]
  | @excluded other y hy =>
    have heq : x = y ↔ compare key other = .eq := by
      rw [← compare_encodeOrderedRelationalKey hkey hy, LawfulEqOrd.compare_eq_iff_eq]
    simp only [below, above, keyPrecedesLower, keyExceedsUpper, Option.any_some,
      compare_encodeOrderedRelationalKey hkey hy, heq]
    cases compare key other <;> exact ⟨rfl, rfl⟩

def inEncodedRange (ordinal : ℕ) (lower upper : EncodedBound) (entry : RowDeltaEntry) : Bool :=
  entry.1.tableOrdinal = ordinal ∧ lower.below entry.1.encodedPrimaryKey = false ∧
    upper.above entry.1.encodedPrimaryKey = false

/-- What a range cursor makes of an entry of a run. -/
structure IsDecoded (entry : RowDeltaEntry)
    (e : OverlayEntry RelationalKey (Option RelationalRow)) : Prop where
  decode : decodeOrderedRelationalKey entry.1.encodedPrimaryKey = .ok e.key
  encode : encodeOrderedRelationalKey e.key = .ok entry.1.encodedPrimaryKey
  epoch : e.epoch = entry.2.lastModifiedEpoch
  value : e.value = entry.2.row

lemma compare_rowDeltaKey (a b : RowDeltaKey) : compare a b =
    (compare a.tableOrdinal b.tableOrdinal).then (compare a.encodedPrimaryKey b.encodedPrimaryKey) :=
  rfl

lemma compare_rowDeltaKey_lt {a b : RowDeltaKey} : compare a b = .lt ↔
    a.tableOrdinal < b.tableOrdinal ∨ a.tableOrdinal = b.tableOrdinal ∧
      compare a.encodedPrimaryKey b.encodedPrimaryKey = .lt := by
  rw [compare_rowDeltaKey, Ordering.then_eq_lt, compare_lt_iff_lt, compare_eq_iff_eq]

lemma runRangeEntries_spec : ∀ {entries}, SortedKeys entries →
    (∀ entry ∈ entries, IsKeyBytes entry.1.encodedPrimaryKey) →
      ∃ out, runRangeEntries ordinal lower upper entries = .ok out ∧
        Forall₂ IsDecoded (entries.filter (inEncodedRange ordinal lower upper)) out
  | [], _, _ => ⟨[], rfl, .nil⟩
  | (k, v) :: entries, hsorted, hkeys => by
    obtain ⟨hlt, hsorted⟩ := pairwise_cons.1 hsorted
    obtain ⟨out, hout, hdecoded⟩ := runRangeEntries_spec hsorted fun entry hentry =>
      hkeys entry (mem_cons_of_mem _ hentry)
    have hskip : inEncodedRange ordinal lower upper (k, v) = false →
        filter (inEncodedRange ordinal lower upper) ((k, v) :: entries) =
          entries.filter (inEncodedRange ordinal lower upper) := fun h =>
      filter_cons_of_neg (by rw [h]; exact Bool.false_ne_true)
    rw [runRangeEntries]
    split_ifs with hless hgreater hbelow habove
    · rw [hskip (by simp [inEncodedRange]; omega)]
      exact ⟨out, hout, hdecoded⟩
    · -- the entries after this one are of later tables too
      refine ⟨[], rfl, ?_⟩
      rw [filter_eq_nil_iff.2]
      · exact .nil
      · intro entry hentry
        have hle : k.tableOrdinal ≤ entry.1.tableOrdinal := by
          rcases mem_cons.1 hentry with rfl | hentry
          · exact le_rfl
          · rcases compare_rowDeltaKey_lt.1 (hlt entry hentry) with h | ⟨h, -⟩
            · exact h.le
            · exact h.le
        simp [inEncodedRange]
        omega
    · rw [hskip (by simp [inEncodedRange, hbelow])]
      exact ⟨out, hout, hdecoded⟩
    · -- the entries after this one are above the bound too, or of later tables
      refine ⟨[], rfl, ?_⟩
      rw [filter_eq_nil_iff.2]
      · exact .nil
      · intro entry hentry
        rcases mem_cons.1 hentry with rfl | hentry
        · simp [inEncodedRange, habove]
        rcases compare_rowDeltaKey_lt.1 (hlt entry hentry) with h | ⟨-, h⟩
        · have : k.tableOrdinal < entry.1.tableOrdinal := h
          simp [inEncodedRange]
          omega
        · have := above_of_lt habove h
          simp [inEncodedRange, this]
    · obtain ⟨key, hdecode, hencode⟩ := hkeys (k, v) mem_cons_self
      rw [decodeDeltaPrimaryKey, hdecode]
      rw [ok_bind, hout, ok_bind, filter_cons_of_pos]
      · exact ⟨_, rfl, .cons ⟨hdecode, hencode, rfl, rfl⟩ hdecoded⟩
      · simp [inEncodedRange, hbelow, habove]
        omega

lemma isLE_rowDeltaKey {a b : RowDeltaKey} (h : (compare a b).isLE) :
    a.tableOrdinal ≤ b.tableOrdinal ∧ (a.tableOrdinal = b.tableOrdinal →
      compare a.encodedPrimaryKey b.encodedPrimaryKey = .lt ∨
        a.encodedPrimaryKey = b.encodedPrimaryKey) := by
  rcases hc : compare a b with _ | _ | _
  · rcases compare_rowDeltaKey_lt.1 hc with hlt | ⟨heq, hlt⟩
    · exact ⟨hlt.le, fun heq => absurd heq hlt.ne⟩
    · exact ⟨heq.le, fun _ => .inl hlt⟩
  · rw [LawfulEqOrd.eq_of_compare hc]
    exact ⟨le_rfl, fun _ => .inr rfl⟩
  · rw [hc] at h
    cases h

lemma EncodedBound.below_some {x bound : Bytes} :
    below (some (bound, inclusive)) x ↔ compare x bound = .lt ∨ inclusive = false ∧ x = bound := by
  simp [below]

lemma EncodedBound.below_of_lt (h : lower.below y) (hxy : compare x y = .lt) : lower.below x := by
  rcases lower with _ | ⟨bound, inclusive⟩
  · cases h
  · rcases below_some.1 h with hlt | ⟨-, rfl⟩
    · exact below_some.2 (.inl (TransCmp.lt_trans hxy hlt))
    · exact below_some.2 (.inl hxy)

lemma not_inEncodedRange_of_run (h : runIntersectsRange run ordinal lower upper = false)
    (hentry : entry ∈ run.entries.entries) : inEncodedRange ordinal lower upper entry = false := by
  obtain ⟨hlower, hlowerKey⟩ := isLE_rowDeltaKey (run.lowerBound_le hentry)
  obtain ⟨hupper, hupperKey⟩ := isLE_rowDeltaKey (run.le_upperBound hentry)
  rw [← Bool.not_eq_true]
  intro hin
  obtain ⟨rfl, hbelow, habove⟩ := of_decide_eq_true hin
  rw [runIntersectsRange] at h
  split_ifs at h with hordinals hbelow' habove'
  · omega
  · rcases hupperKey hbelow'.1.symm with hlt | heq
    · rw [below_of_lt hbelow'.2 hlt] at hbelow
      cases hbelow
    · rw [heq, hbelow'.2] at hbelow
      cases hbelow
  · rcases hlowerKey habove'.1 with hlt | heq
    · rw [above_of_lt habove'.2 hlt] at habove
      cases habove
    · rw [← heq, habove'.2] at habove
      cases habove

lemma pairwise_of_forall₂ {S : α → α → Prop} {T : β → β → Prop}
    (hST : ∀ a b c d, R a c → R b d → S a b → T c d) :
    ∀ {l m}, Forall₂ R l m → l.Pairwise S → m.Pairwise T
  | [], [], .nil, _ => .nil
  | a :: l, c :: m, .cons hac h, hl => by
    obtain ⟨ha, hl⟩ := pairwise_cons.1 hl
    refine pairwise_cons.2 ⟨fun d hd => ?_, pairwise_of_forall₂ hST h hl⟩
    obtain ⟨b, hb, hbd⟩ := exists_of_mem_forall₂ h.flip hd
    exact hST a b c d hac hbd (ha b hb)

def IsSource (ordinal : ℕ) (lower upper : EncodedBound) (run : RowDeltaRun)
    (source : List (OverlayEntry RelationalKey (Option RelationalRow))) : Prop :=
  Forall₂ IsDecoded (run.entries.entries.filter (inEncodedRange ordinal lower upper)) source

lemma IsSource.sorted (h : IsSource ordinal lower upper run source) :
    source.Pairwise fun a b => compare a.key b.key = .lt := by
  refine pairwise_of_forall₂ (fun a b c d hac hbd hab => ?_) h
    ((pairwise_filter.2 (run.entries.sorted.imp fun hlt ha hb => (⟨hlt, ha, hb⟩ : _ ∧ _ ∧ _))))
  obtain ⟨hlt, ha, hb⟩ := hab
  rw [← compare_encodeOrderedRelationalKey hac.encode hbd.encode]
  rcases compare_rowDeltaKey_lt.1 hlt with hordinal | ⟨-, hkey⟩
  · have := (of_decide_eq_true ha).1
    have := (of_decide_eq_true hb).1
    omega
  · exact hkey

/-- Two runs do not hold a key of the range at one epoch. -/
def ApartIn (ordinal : ℕ) (lower upper : EncodedBound) (run later : RowDeltaRun) : Prop :=
  ∀ entry ∈ run.entries.entries, ∀ entry' ∈ later.entries.entries, entry.1 = entry'.1 →
    inEncodedRange ordinal lower upper entry = true →
      entry.2.lastModifiedEpoch ≠ entry'.2.lastModifiedEpoch

lemma inEncodedRange_congr {entry' : RowDeltaEntry} (h : entry.1 = entry'.1) :
    inEncodedRange ordinal lower upper entry = inEncodedRange ordinal lower upper entry' := by
  rw [inEncodedRange, inEncodedRange, h]

lemma IsSource.exists_decoded (h : IsSource ordinal lower upper run source)
    (hentry : entry ∈ run.entries.entries) (hin : inEncodedRange ordinal lower upper entry) :
    ∃ e ∈ source, IsDecoded entry e :=
  exists_of_mem_forall₂ h (mem_filter.2 ⟨hentry, hin⟩)

lemma IsSource.exists_entry (h : IsSource ordinal lower upper run source) (he : e ∈ source) :
    ∃ entry ∈ run.entries.entries,
      inEncodedRange ordinal lower upper entry ∧ IsDecoded entry e := by
  obtain ⟨entry, hentry, hdecoded⟩ := exists_of_mem_forall₂ h.flip he
  obtain ⟨hentry, hin⟩ := mem_filter.1 hentry
  exact ⟨entry, hentry, hin, hdecoded⟩

variable {sources : List (List (OverlayEntry RelationalKey (Option RelationalRow)))}

lemma distinctVersions_iff_apart {runs : List RowDeltaRun}
    (h : Forall₂ (IsSource ordinal lower upper)
      (runs.filter fun run => runIntersectsRange run ordinal lower upper) sources) :
    DistinctVersions sources ↔ runs.Pairwise (ApartIn ordinal lower upper) := by
  rw [distinctVersions_iff]
  constructor
  · intro hsources
    have hfilter := pairwise_of_forall₂ (T := ApartIn ordinal lower upper)
      (fun l m run later hl hm hlm entry hentry entry' hentry' hkey hin hepoch => ?_) h.flip hsources
    · refine (pairwise_filter.1 hfilter).imp fun {run later} himp entry hentry entry' hentry'
        hkey hin => himp ?_ ?_ entry hentry entry' hentry' hkey hin
      · by_contra hrun
        have := not_inEncodedRange_of_run (Bool.not_eq_true _ ▸ hrun) hentry
        cases hin.symm.trans this
      · by_contra hrun
        have := not_inEncodedRange_of_run (Bool.not_eq_true _ ▸ hrun) hentry'
        rw [inEncodedRange_congr hkey] at hin
        cases hin.symm.trans this
    · obtain ⟨e, he, hdecoded⟩ := IsSource.exists_decoded hl hentry hin
      obtain ⟨e', he', hdecoded'⟩ :=
        IsSource.exists_decoded hm hentry' (inEncodedRange_congr hkey ▸ hin)
      refine hlm e he e' he' ?_ (by rw [hdecoded.epoch, hdecoded'.epoch, hepoch])
      rw [← compare_encodeOrderedRelationalKey hdecoded.encode hdecoded'.encode, hkey]
      exact ReflOrd.compare_self
  · intro hruns
    refine pairwise_of_forall₂ (fun run later l m hl hm hapart e he e' he' hkeys hepochs => ?_) h
      (hruns.filter _)
    obtain ⟨entry, hentry, hin, hdecoded⟩ := IsSource.exists_entry hl he
    obtain ⟨entry', hentry', hin', hdecoded'⟩ := IsSource.exists_entry hm he'
    refine hapart entry hentry entry' hentry' ?_ hin
      (by rw [← hdecoded.epoch, ← hdecoded'.epoch, hepochs])
    have hbytes := compare_encodeOrderedRelationalKey hdecoded.encode hdecoded'.encode
    rw [hkeys] at hbytes
    have hordinal := (of_decide_eq_true hin).1.trans (of_decide_eq_true hin').1.symm
    have : compare entry.1 entry'.1 = .eq := by
      rw [compare_rowDeltaKey, hbytes, hordinal, compare_eq_iff_eq.2 rfl]
      rfl
    exact LawfulEqOrd.eq_of_compare this

lemma findSome?_of_newest {key : RowDeltaKey} (value : RowDeltaValue)
    (hin : ∀ v, inEncodedRange ordinal lower upper (key, v)) :
    ∀ (runs : List RowDeltaRun),
      runs.Pairwise (fun run later => ∀ entry ∈ run.entries.entries,
        ∀ entry' ∈ later.entries.entries, entry.2.lastModifiedEpoch ≤ entry'.2.lastModifiedEpoch) →
      runs.Pairwise (ApartIn ordinal lower upper) →
      (∃ run ∈ runs, (key, value) ∈ run.entries.entries) →
      (∀ run ∈ runs, ∀ v, (key, v) ∈ run.entries.entries →
        v.lastModifiedEpoch ≤ value.lastModifiedEpoch) →
        (runs.reverse.findSome? fun run => run.entries.get key) = some value := by
  intro runs
  induction runs using reverseRecOn with
  | nil => exact fun _ _ ⟨_, h, _⟩ => nomatch h
  | append_singleton runs run ih =>
    intro hepochs hapart hholds hnewest
    obtain ⟨hepochs, -, hlater⟩ := pairwise_append.1 hepochs
    obtain ⟨hapart, -, hapart'⟩ := pairwise_append.1 hapart
    rw [reverse_append, reverse_singleton, singleton_append, findSome?_cons]
    have hget : ∀ {map : OrdMap RowDeltaKey RowDeltaValue} {v : RowDeltaValue},
        map.get key = some v ↔ (key, v) ∈ map.entries := fun {map v} => by
      rw [get_eq_some_iff]
      constructor
      · rintro ⟨k', hmem, hcompare⟩
        rwa [← LawfulEqOrd.eq_of_compare hcompare]
      · exact fun hmem => ⟨key, hmem, ReflOrd.compare_self⟩
    rcases hrun : run.entries.get key with _ | v
    · refine ih hepochs hapart ?_ fun run hrun => hnewest run (mem_append_left _ hrun)
      obtain ⟨holder, hholder, hmem⟩ := hholds
      rcases mem_append.1 hholder with hholder | hholder
      · exact ⟨holder, hholder, hmem⟩
      · rw [mem_singleton.1 hholder, ← hget, hrun] at hmem
        cases hmem
    · have hv := hget.1 hrun
      obtain ⟨holder, hholder, hmem⟩ := hholds
      rcases mem_append.1 hholder with hholder | hholder
      · have hle := hlater holder hholder run mem_cons_self _ hmem _ hv
        have hge := hnewest run (mem_append_right _ mem_cons_self) v hv
        exact absurd (le_antisymm hle hge)
          (hapart' holder hholder run mem_cons_self _ hmem _ hv rfl (hin value))
      · rw [mem_singleton.1 hholder] at hmem
        rw [← hget, hrun] at hmem
        exact hmem

lemma not_inEncodedRange_of_areEmpty (h : areEmpty lower upper)
    (entry : RowDeltaEntry) : inEncodedRange ordinal lower upper entry = false := by
  rw [← Bool.not_eq_true]
  intro hin
  obtain ⟨-, hbelow, habove⟩ := of_decide_eq_true hin
  rw [← Bool.not_eq_true] at hbelow habove
  rcases lower with _ | ⟨l, linc⟩
  · cases h
  rcases upper with _ | ⟨u, uinc⟩
  · cases h
  rw [below_some, not_or, not_and] at hbelow
  rw [above_some, not_or, not_and] at habove
  rcases of_decide_eq_true h with hgt | ⟨rfl, hinc⟩
  · have hlu := compare_gt_iff.1 hgt
    rcases hc : compare entry.1.encodedPrimaryKey l with _ | _ | _
    · exact hbelow.1 hc
    · exact habove.1 (TransCmp.lt_of_lt_of_eq hlu (compare_swap_eq.1 hc))
    · exact habove.1 (TransCmp.lt_trans hlu (compare_gt_iff.1 hc))
  · rcases hc : compare entry.1.encodedPrimaryKey l with _ | _ | _
    · exact hbelow.1 hc
    · have heq := LawfulEqOrd.eq_of_compare hc
      cases linc
      · exact hbelow.2 rfl heq
      · cases uinc
        · exact habove.2 rfl heq
        · simp at hinc
    · exact habove.1 (compare_gt_iff.1 hc)

/-- The sources of a range read hold the entries of the runs in the range. -/
structure CoversRange (runs : List RowDeltaRun) (ordinal : ℕ) (lower upper : EncodedBound)
    (sources : List (List (OverlayEntry RelationalKey (Option RelationalRow)))) : Prop where
  sorted : SortedSources sources
  sound : ∀ i e, HeldIn sources i e → ∃ run ∈ runs,
    ∃ entry ∈ run.entries.entries, inEncodedRange ordinal lower upper entry ∧ IsDecoded entry e
  complete : ∀ run ∈ runs, ∀ entry ∈ run.entries.entries,
    inEncodedRange ordinal lower upper entry → ∃ i e, HeldIn sources i e ∧ IsDecoded entry e
  apart : DistinctVersions sources ↔ runs.Pairwise (ApartIn ordinal lower upper)

lemma coversRange_of_forall₂ {runs : List RowDeltaRun} (h : Forall₂ (IsSource ordinal lower upper)
      (runs.filter fun run => runIntersectsRange run ordinal lower upper) sources) :
    CoversRange runs ordinal lower upper sources := by
  refine ⟨fun source hsource => ?_, fun i e he => ?_, fun run hrun entry hentry hin => ?_,
    distinctVersions_iff_apart h⟩
  · obtain ⟨run, -, hrun⟩ := exists_of_mem_forall₂ h.flip hsource
    exact IsSource.sorted hrun
  · obtain ⟨source, hsource, he⟩ := heldIn_iff.1 he
    obtain ⟨run, hrun, hsourceOf⟩ := exists_of_mem_forall₂ h.flip (mem_of_getElem? hsource)
    exact ⟨run, (mem_filter.1 hrun).1, IsSource.exists_entry hsourceOf he⟩
  · have hmem : run ∈ runs.filter fun run =>
        runIntersectsRange run ordinal lower upper := by
      refine mem_filter.2 ⟨hrun, ?_⟩
      by_contra hnot
      cases hin.symm.trans (not_inEncodedRange_of_run (Bool.not_eq_true _ ▸ hnot) hentry)
    obtain ⟨source, hsource, hsourceOf⟩ := exists_of_mem_forall₂ h hmem
    obtain ⟨e, he, hdecoded⟩ := IsSource.exists_decoded hsourceOf hentry hin
    obtain ⟨i, hi⟩ := mem_iff_getElem?.1 hsource
    exact ⟨i, e, heldIn_iff.2 ⟨source, hi, he⟩, hdecoded⟩

lemma coversRange_nil {runs : List RowDeltaRun}
    (h : ∀ entry, inEncodedRange ordinal lower upper entry = false) :
    CoversRange runs ordinal lower upper [] := by
  have hno : ∀ entry, inEncodedRange ordinal lower upper entry ≠ true := fun entry hin =>
    nomatch hin.symm.trans (h entry)
  refine ⟨nofun, fun i e he => ?_,
    fun run _ entry _ hin => absurd hin (hno entry), fun _ => ?_, fun _ i j e e' he => ?_⟩
  · obtain ⟨source, hsource, -⟩ := heldIn_iff.1 he
    cases hsource
  · exact pairwise_of_forall fun _ _ entry _ _ _ _ hin => absurd hin (hno entry)
  · obtain ⟨source, hsource, -⟩ := heldIn_iff.1 he
    cases hsource

lemma rangeSources_spec (htable : reader.context.tableOrdinal table = some ordinal)
    (hlower : reader.encodeRangeBound lowerBound = .ok lower)
    (hupper : reader.encodeRangeBound upperBound = .ok upper)
    (hentries : reader.context.AreEntries reader.runs) :
    ∃ sources, reader.rangeSources table lowerBound upperBound = .ok sources ∧
      CoversRange reader.runs ordinal lower upper sources := by
  rw [rangeSources, htable]
  dsimp only
  rw [hlower, ok_bind, hupper, ok_bind]
  split_ifs with hempty
  · exact ⟨[], rfl, coversRange_nil (not_inEncodedRange_of_areEmpty hempty)⟩
  obtain ⟨sources, hsources, h⟩ := exists_mapM (R := IsSource ordinal lower upper)
    (f := fun run : RowDeltaRun =>
      runRangeEntries ordinal lower upper run.entries.entries)
    (l := reader.runs.filter fun run =>
      runIntersectsRange run ordinal lower upper)
    fun run hrun => runRangeEntries_spec run.entries.sorted fun entry hentry =>
      (hentries run (mem_filter.1 hrun).1 entry hentry).2
  exact ⟨sources, hsources, coversRange_of_forall₂ h⟩

end

/-! ### The delta does not depend on its flushes -/

section

variable {reader : RowDeltaReader} {table : String} {lower upper : KeyBound}
  {changes : List (ℕ × RelationalRowChange)} {history : List RowDeltaEntry}
  {segments : List (List RowDeltaEntry)} {encodedLower encodedUpper : EncodedBound}

/-- The rows of a range read are the last recorded changes of the keys in the range, ascending. -/
structure RangeAgrees (changes : List (ℕ × RelationalRowChange)) (table : String)
    (lower upper : KeyBound) (rows : List (RelationalKey × Option RelationalRow)) : Prop where
  ascending : rows.Pairwise fun a b => compare a.1 b.1 = .lt
  values : ∀ key value, (∃ row ∈ rows, compare row.1 key = .eq ∧ row.2 = value) ↔
    InRange lower upper key ∧ lastRecorded changes table key = some value

/-- No two runs hold a key of the table inside the bounds at one epoch. -/
def RowDeltaReader.KeepsApart (reader : RowDeltaReader) (table : String)
    (lower upper : KeyBound) : Prop :=
  reader.runs.Pairwise fun run later => ∀ entry ∈ run.entries.entries,
    ∀ entry' ∈ later.entries.entries, entry.1 = entry'.1 →
      reader.context.tableOrdinal table = some entry.1.tableOrdinal →
        ∀ key, encodeOrderedRelationalKey key = .ok entry.1.encodedPrimaryKey →
          InRange lower upper key → entry.2.lastModifiedEpoch ≠ entry'.2.lastModifiedEpoch

lemma inEncodedRange_iff (hlower : reader.encodeRangeBound lower = .ok encodedLower)
    (hupper : reader.encodeRangeBound upper = .ok encodedUpper)
    (hkey : encodeOrderedRelationalKey key = .ok entry.1.encodedPrimaryKey) :
    inEncodedRange ordinal encodedLower encodedUpper entry = true ↔
      entry.1.tableOrdinal = ordinal ∧ InRange lower upper key := by
  rw [inEncodedRange, decide_eq_true_iff,
    (below_above_eq (encodesTo_encodeRangeBound hlower) hkey).1,
    (below_above_eq (encodesTo_encodeRangeBound hupper) hkey).2, InRange]

lemma keepsApart_iff (htable : reader.context.tableOrdinal table = some ordinal)
    (hlower : reader.encodeRangeBound lower = .ok encodedLower)
    (hupper : reader.encodeRangeBound upper = .ok encodedUpper)
    (hentries : reader.context.AreEntries reader.runs) :
    reader.KeepsApart table lower upper ↔
      reader.runs.Pairwise (ApartIn ordinal encodedLower encodedUpper) := by
  constructor
  · intro h
    refine h.imp_of_mem fun {run later} hrun _ hrunLater entry hentry entry' hentry' hkeys hin => ?_
    obtain ⟨-, key, -, hkey⟩ := hentries run hrun entry hentry
    obtain ⟨hordinal, hrange⟩ := (inEncodedRange_iff hlower hupper hkey).1 hin
    exact hrunLater entry hentry entry' hentry' hkeys (by rw [htable, hordinal]) key hkey hrange
  · intro h
    refine h.imp fun {run later} hapart entry hentry entry' hentry' hkeys hordinal key hkey hrange =>
      hapart entry hentry entry' hentry' hkeys ?_
    refine (inEncodedRange_iff hlower hupper hkey).2 ⟨?_, hrange⟩
    exact Option.some.inj (hordinal.symm.trans htable)

lemma runs_epochs {runs : List RowDeltaRun} (hruns : runs.map (·.entries) = segments.map ofList)
    (hepochs : segments.flatten.Pairwise fun a b =>
      a.2.lastModifiedEpoch ≤ b.2.lastModifiedEpoch) :
    runs.Pairwise fun run later => ∀ entry ∈ run.entries.entries,
      ∀ entry' ∈ later.entries.entries, entry.2.lastModifiedEpoch ≤ entry'.2.lastModifiedEpoch := by
  have hsegments := (pairwise_flatten.1 hepochs).2
  have hmaps : (segments.map ofList).Pairwise fun map later =>
      ∀ entry ∈ map.entries, ∀ entry' ∈ later.entries,
        entry.2.lastModifiedEpoch ≤ entry'.2.lastModifiedEpoch :=
    pairwise_map.2 (hsegments.imp fun h entry hentry entry' hentry' =>
      h entry (mem_of_mem_ofList hentry) entry' (mem_of_mem_ofList hentry'))
  rw [← hruns] at hmaps
  exact pairwise_map.1 hmaps

/-- A published delta: what its runs hold of the recorded changes. -/
structure Publishes (reader : RowDeltaReader) (changes : List (ℕ × RelationalRowChange))
    (history : List RowDeltaEntry) (segments : List (List RowDeltaEntry)) : Prop where
  entries : Forall₂ (IsEntryOf reader.context) changes history
  dated : AreDated changes
  history : history = segments.flatten
  runs : reader.runs.map (·.entries) = segments.map ofList
  epochs : changes.Pairwise fun a b => a.1 ≤ b.1
  admitted : ∀ change ∈ changes, reader.context.baseCommitEpoch < change.1 ∧
    change.1 ≤ reader.visibleCommitEpoch

namespace Publishes

section

variable (h : Publishes reader changes history segments)

include h

lemma areEntries : reader.context.AreEntries reader.runs := fun _ hrun _ hentry =>
  isEntry_of_mem h.entries h.dated (h.history ▸ mem_flatten_of_mem_run h.runs hrun hentry)

lemma epochs_flatten :
    segments.flatten.Pairwise fun a b => a.2.lastModifiedEpoch ≤ b.2.lastModifiedEpoch := by
  rw [← h.history]
  refine pairwise_of_forall₂ (fun a b c d hac hbd hab => ?_) h.entries h.epochs
  rw [hac.epoch, hbd.epoch]
  exact hab

lemma admitted_of_mem {run : RowDeltaRun} (hrun : run ∈ reader.runs) {entry : RowDeltaEntry}
    (hentry : entry ∈ run.entries.entries) :
    reader.context.baseCommitEpoch < entry.2.lastModifiedEpoch ∧
      entry.2.lastModifiedEpoch ≤ reader.visibleCommitEpoch := by
  have hmem : entry ∈ history := h.history ▸ mem_flatten_of_mem_run h.runs hrun hentry
  obtain ⟨change, hchange, hof⟩ := exists_of_mem_forall₂ h.entries.flip hmem
  rw [hof.epoch]
  exact h.admitted change hchange

end

lemma exists_encode_of_lastRecorded {context : RowDeltaContext}
    (h : Forall₂ (IsEntryOf context) changes history)
    (hlast : lastRecorded changes table key = some value) :
    ∃ x, encodeOrderedRelationalKey key = .ok x := by
  obtain ⟨change, hchange, -⟩ := Option.map_eq_some_iff.1 hlast
  have hfound := find?_some hchange
  have hkey := (of_decide_eq_true hfound).2
  obtain ⟨entry, -, hof⟩ := exists_of_mem_forall₂ h (mem_reverse.1 (mem_of_find?_eq_some hchange))
  exact ⟨_, encodeOrderedRelationalKey_congr hkey hof.key⟩

variable {rows : List (RelationalKey × Option RelationalRow)}

section

variable (h : Publishes reader changes history segments)

include h

lemma rangeAgrees (htable : reader.context.tableOrdinal table = some ordinal)
    (hlower : reader.encodeRangeBound lower = .ok encodedLower)
    (hupper : reader.encodeRangeBound upper = .ok encodedUpper)
    {sources : List (List (OverlayEntry RelationalKey (Option RelationalRow)))}
    (hcovers : CoversRange reader.runs ordinal encodedLower encodedUpper sources)
    (hapart : reader.runs.Pairwise (ApartIn ordinal encodedLower encodedUpper))
    (hnewest : IsNewest (HeldIn sources) rows) :
    RangeAgrees changes table lower upper rows := by
  -- the value of a row is the last one recorded for any key equal to its own
  have hrow : ∀ row ∈ rows, ∀ key, compare row.1 key = .eq →
      InRange lower upper key ∧ lastRecorded changes table key = some row.2 := by
    intro row hmem key hkey
    obtain ⟨i, e, he, rfl, hmax⟩ := hnewest.sound row hmem
    obtain ⟨run, hrun, ⟨k, v⟩, hentry, hin, hdecoded⟩ := hcovers.sound i e he
    have hencode := encodeOrderedRelationalKey_congr hkey hdecoded.encode
    obtain ⟨hordinal, hrange⟩ := (inEncodedRange_iff hlower hupper hencode).1 hin
    refine ⟨hrange, ?_⟩
    have hk : (⟨ordinal, k.encodedPrimaryKey⟩ : RowDeltaKey) = k := by rw [← hordinal]
    rw [lastRecorded_eq h.entries hencode, htable, Option.bind_some, hk, h.history,
      ← findSome?_get h.runs, findSome?_of_newest v (fun v' => ?_) reader.runs
        (runs_epochs h.runs h.epochs_flatten) hapart ⟨run, hrun, hentry⟩ fun run' hrun' v' hv' => ?_,
      Option.map_some, hdecoded.value]
    · rw [← hin]
      exact inEncodedRange_congr rfl
    · obtain ⟨j, e', he', hdecoded'⟩ := hcovers.complete run' hrun' (k, v')
        hv' (by rw [← hin]; exact inEncodedRange_congr rfl)
      rw [← hdecoded'.epoch, ← hdecoded.epoch]
      refine hmax j e' he' ?_
      rw [← compare_encodeOrderedRelationalKey hdecoded'.encode hdecoded.encode]
      exact ReflOrd.compare_self
  refine ⟨hnewest.sorted, fun key value => ⟨?_, ?_⟩⟩
  · rintro ⟨row, hmem, hkey, rfl⟩
    exact hrow row hmem key hkey
  · rintro ⟨hrange, hlast⟩
    obtain ⟨x, hkey⟩ := exists_encode_of_lastRecorded h.entries hlast
    have hvalue := hlast
    rw [lastRecorded_eq h.entries hkey, htable, Option.bind_some, h.history,
      ← findSome?_get h.runs] at hvalue
    obtain ⟨v, hv, -⟩ := Option.map_eq_some_iff.1 hvalue
    obtain ⟨run, hrun, hget⟩ := exists_of_findSome?_eq_some hv
    obtain ⟨k, hentry, hk⟩ := get_eq_some_iff.1 hget
    rw [LawfulEqOrd.eq_of_compare hk] at hentry
    obtain ⟨i, e, he, hdecoded⟩ := hcovers.complete run (mem_reverse.1 hrun) _ hentry
      ((inEncodedRange_iff hlower hupper hkey).2 ⟨rfl, hrange⟩)
    obtain ⟨row, hmem, hrowKey⟩ := hnewest.complete i e he
    have hekey : compare e.key key = .eq := by
      rw [← compare_encodeOrderedRelationalKey hdecoded.encode hkey]
      exact ReflOrd.compare_self
    have hrowKey' := TransCmp.eq_trans hrowKey hekey
    refine ⟨row, hmem, hrowKey', ?_⟩
    exact Option.some.inj ((hrow row hmem key hrowKey').2.symm.trans hlast)

section

variable (hlower : reader.encodeRangeBound lower = .ok encodedLower)
  (hupper : reader.encodeRangeBound upper = .ok encodedUpper)

include hlower hupper

lemma keepsApart_of_rangeRead (hread : reader.rangeRead table lower upper = .ok rows) :
    reader.KeepsApart table lower upper := by
  rcases htable : reader.context.tableOrdinal table with _ | ordinal
  · refine pairwise_of_forall fun _ _ _ _ _ _ _ hordinal => ?_
    rw [htable] at hordinal
    cases hordinal
  obtain ⟨sources, hsources, hcovers⟩ := rangeSources_spec htable hlower hupper h.areEntries
  rw [rangeRead, hsources, ok_bind] at hread
  rw [keepsApart_iff htable hlower hupper h.areEntries]
  exact hcovers.apart.1 (collect_new_spec hcovers.sorted hread).2

lemma rangeRead_iff : (∃ rows, reader.rangeRead table lower upper = .ok rows ∧
        RangeAgrees changes table lower upper rows) ↔ reader.KeepsApart table lower upper := by
  refine ⟨fun ⟨_, hread, _⟩ => h.keepsApart_of_rangeRead hlower hupper hread, fun hapart => ?_⟩
  rcases htable : reader.context.tableOrdinal table with _ | ordinal
  · -- no change was recorded for a table that the delta does not know
    have hread : reader.rangeRead table lower upper = .ok [] := by
      rw [rangeRead, rangeSources, htable]
      exact collect_new_nil
    refine ⟨[], hread, .nil, fun key value => ⟨fun ⟨_, hrow, _⟩ => (nomatch hrow), ?_⟩⟩
    rintro ⟨-, hlast⟩
    obtain ⟨x, hkey⟩ := exists_encode_of_lastRecorded h.entries hlast
    rw [lastRecorded_eq h.entries hkey, htable] at hlast
    cases hlast
  · obtain ⟨sources, hsources, hcovers⟩ := rangeSources_spec htable hlower hupper h.areEntries
    rw [keepsApart_iff htable hlower hupper h.areEntries] at hapart
    obtain ⟨rows, hrows⟩ := exists_collect_new hcovers.sorted
      (fun i e he => by
        obtain ⟨run, hrun, entry, hentry, -, hdecoded⟩ := hcovers.sound i e he
        rw [hdecoded.epoch]
        exact h.admitted_of_mem hrun hentry) (hcovers.apart.2 hapart)
    refine ⟨rows, ?_, h.rangeAgrees htable hlower hupper hcovers hapart
      (collect_new_spec hcovers.sorted hrows).1⟩
    rw [rangeRead, hsources, ok_bind, hrows]

end

end

end Publishes

/-- No key is recorded twice at one epoch. -/
def NoRepeatAtEpoch (changes : List (ℕ × RelationalRowChange)) : Prop :=
  changes.Pairwise fun a b => a.1 = b.1 → a.2.table = b.2.table →
    compare a.2.primaryKey b.2.primaryKey ≠ .eq

lemma IsEntryOf.of_key_eq {context : RowDeltaContext} {a b : ℕ × RelationalRowChange}
    {c d : RowDeltaEntry} (hac : IsEntryOf context a c) (hbd : IsEntryOf context b d)
    (h : c.1 = d.1) :
    a.2.table = b.2.table ∧ compare a.2.primaryKey b.2.primaryKey = .eq := by
  obtain ⟨t, ht, hname⟩ := tableOrdinal_eq_some hac.table
  obtain ⟨u, hu, hname'⟩ := tableOrdinal_eq_some hbd.table
  rw [h, hu] at ht
  refine ⟨by rw [← hname, ← hname', Option.some.inj ht], ?_⟩
  rw [← compare_encodeOrderedRelationalKey hac.key hbd.key, h]
  exact ReflOrd.compare_self

/-- Runs are apart, wherever they were flushed, if no key is recorded twice at one epoch. -/
theorem Publishes.keepsApart (h : Publishes reader changes history segments)
    (hrepeat : NoRepeatAtEpoch changes) : reader.KeepsApart table lower upper := by
  have hhistory : history.Pairwise fun a b =>
      a.1 = b.1 → a.2.lastModifiedEpoch ≠ b.2.lastModifiedEpoch := by
    refine pairwise_of_forall₂ (fun a b c d hac hbd hab hkey hepoch => ?_) h.entries hrepeat
    obtain ⟨htable, hcompare⟩ := hac.of_key_eq hbd hkey
    rw [hac.epoch, hbd.epoch] at hepoch
    exact hab hepoch htable hcompare
  rw [h.history] at hhistory
  have hmaps : (segments.map ofList).Pairwise fun map later =>
      ∀ entry ∈ map.entries, ∀ entry' ∈ later.entries, entry.1 = entry'.1 →
        entry.2.lastModifiedEpoch ≠ entry'.2.lastModifiedEpoch :=
    pairwise_map.2 ((pairwise_flatten.1 hhistory).2.imp
      fun hapart entry hentry entry' hentry' =>
        hapart entry (mem_of_mem_ofList hentry) entry' (mem_of_mem_ofList hentry'))
  rw [← h.runs] at hmaps
  exact (pairwise_map.1 hmaps).imp fun hapart entry hentry entry' hentry' hkeys _ _ _ _ =>
    hapart entry hentry entry' hentry' hkeys

lemma segmented_new (context : RowDeltaContext) : (RowDeltaBuilder.new context).Segmented [] :=
  ⟨[], [], rfl, rfl, rfl⟩

lemma exists_publishes {context : RowDeltaContext} {builder : RowDeltaBuilder}
    (hreplay : RowDeltaBuilder.recordAll calls (.new context) = .ok builder)
    (hdated : AreDated (recordedChanges calls)) (hfinish : builder.finish = .ok reader) :
    ∃ history segments, Publishes reader (recordedChanges calls) history segments ∧
      builder.context = context ∧ reader.context = context ∧ builder.Segmented history := by
  obtain ⟨hcontext, -, history, hentries, hsegmented⟩ :=
    recordAll_spec hreplay (segmented_new context)
  obtain ⟨hepochs, hadmitted⟩ := recordAll_epochs hreplay (segmented_new context) le_rfl
  obtain ⟨hreader, hvisible, segments, hhistory, hruns⟩ := finish_spec hfinish hsegmented
  have hcontext' : builder.context = context := hcontext
  refine ⟨history, segments, ⟨?_, hdated, hhistory, hruns, hepochs, fun change hchange => ?_⟩,
    hcontext', hreader.trans hcontext', hsegmented⟩
  · rw [hreader, hcontext']
    exact hentries
  · obtain ⟨-, hbase, hle⟩ := hadmitted change hchange
    rw [hreader, hvisible, hcontext']
    exact ⟨hbase, hle⟩

/-- Wherever the builder flushed, lookups give the last recorded change of a key. A merged range
read gives the last recorded changes just when no two runs hold a key of the range at one epoch. -/
theorem recovery_delta_reads_iff (context : RowDeltaContext)
    (calls : List (ℕ × RelationalRowChangeCapture)) (builder : RowDeltaBuilder)
    (reader : RowDeltaReader)
    (hreplay : RowDeltaBuilder.recordAll calls (.new context) = .ok builder)
    (hdated : AreDated (recordedChanges calls)) (hfinish : builder.finish = .ok reader)
    (table : String) :
    (∀ key x, encodeOrderedRelationalKey key = .ok x → x.length ≤ context.config.maxKeyBytes →
      builder.lookupStaged table key = .ok (lastRecorded (recordedChanges calls) table key) ∧
        reader.lookup table key = .ok (lastRecorded (recordedChanges calls) table key)) ∧
    (∀ lower upper encodedLower encodedUpper, reader.encodeRangeBound lower = .ok encodedLower →
      reader.encodeRangeBound upper = .ok encodedUpper →
        ((∃ rows, reader.rangeRead table lower upper = .ok rows ∧
          RangeAgrees (recordedChanges calls) table lower upper rows) ↔
            reader.KeepsApart table lower upper)) ∧
    (NoRepeatAtEpoch (recordedChanges calls) →
      ∀ lower upper, reader.KeepsApart table lower upper) := by
  obtain ⟨history, segments, h, hbuilder, hreader, hsegmented⟩ :=
    exists_publishes hreplay hdated hfinish
  refine ⟨fun key x hkey hlength => ⟨?_, ?_⟩, fun lower upper _ _ hlower hupper =>
    h.rangeRead_iff hlower hupper, fun hrepeat _ _ => h.keepsApart hrepeat⟩
  · refine lookupStaged_lastRecorded ?_ hdated hsegmented table hkey (by rwa [hbuilder])
    rw [hbuilder, ← hreader]
    exact h.entries
  · exact lookupRuns_lastRecorded h.entries hdated h.history h.runs table hkey (by rwa [hreader])

/-- A delta of one table whose dirty map has room for one entry. -/
def oneEntryContext : RowDeltaContext where
  config := ⟨1, 1000, 8, 64, fun _ _ => .ok 1⟩
  tables := [⟨"t", 1⟩]
  tablesSorted := pairwise_singleton _ _
  baseCommitEpoch := 0

def integerChange (key value : Int64) : RelationalRowChange :=
  ⟨"t", [.bigInt key], some [.bigInt value]⟩

def twoEpochs : List (ℕ × RelationalRowChangeCapture) :=
  [(1, .captured [integerChange 1 10]), (2, .captured [integerChange 1 11])]

theorem recovery_delta_reads_iff_flushed :
    ∃ builder reader, RowDeltaBuilder.recordAll twoEpochs (.new oneEntryContext) = .ok builder ∧
      builder.finish = .ok reader ∧
      ∃ rows, reader.rangeRead "t" .unbounded .unbounded = .ok rows ∧
        RangeAgrees (recordedChanges twoEpochs) "t" .unbounded .unbounded rows := by
  refine ⟨_, _, rfl, rfl, ?_⟩
  have hdated : AreDated (recordedChanges twoEpochs) := by
    unfold AreDated
    decide
  have hrepeat : NoRepeatAtEpoch (recordedChanges twoEpochs) := by
    unfold NoRepeatAtEpoch
    decide
  obtain ⟨-, hrange, hapart⟩ :=
    recovery_delta_reads_iff oneEntryContext twoEpochs _ _ rfl hdated rfl "t"
  exact (hrange .unbounded .unbounded none none rfl rfl).2 (hapart hrepeat _ _)

def oneEpoch : List (ℕ × RelationalRowChangeCapture) :=
  [(1, .captured [integerChange 1 10]), (1, .captured [integerChange 2 20]),
    (1, .captured [integerChange 1 11])]

/-- The first and the third run hold the key at the epoch: a lookup gives its last value, and a
range read is refused. -/
theorem range_read_refuses_split_epoch :
    ∃ builder reader, RowDeltaBuilder.recordAll oneEpoch (.new oneEntryContext) = .ok builder ∧
      builder.finish = .ok reader ∧
      reader.lookup "t" [.bigInt 1] = .ok (some (some [.bigInt 11])) ∧
      ∀ rows, reader.rangeRead "t" .unbounded .unbounded ≠ .ok rows := by
  have hdated : AreDated (recordedChanges oneEpoch) := by
    unfold AreDated
    decide
  have hreplay : RowDeltaBuilder.recordAll oneEpoch (.new oneEntryContext) = .ok _ := rfl
  obtain ⟨history, segments, h, -⟩ := exists_publishes hreplay hdated rfl
  refine ⟨_, _, rfl, rfl, ?_, fun rows hread => ?_⟩
  · exact lookupRuns_lastRecorded h.entries hdated h.history h.runs "t" rfl (by decide)
  · have hapart := h.keepsApart_of_rangeRead rfl rfl hread
    obtain ⟨hfirst, -⟩ := pairwise_cons.1 hapart
    exact hfirst _ (mem_cons_of_mem _ mem_cons_self) _ mem_cons_self _
      mem_cons_self rfl rfl [.bigInt 1] rfl ⟨rfl, rfl⟩ rfl

end

end HawDB
