import HawDB.RowPageMutation
import HawDB.Proofs.RowPageRange

/-!
# The parts of a checkpoint plan

A capture has the overlay of every changed key (`checkpointCapture_spec`), so a visible row is the
collected change of its key or else the row of the base (`visibleRow_eq`). The changes of a page
override its rows (`applyChanges_spec`), and rows are packed in order (`packInto_eq_ok`).
-/

namespace HawDB

open List PagePackState OrdMap RowDeltaContext

open RowPageView RowPageMutation

/-! ### The captured changes -/

section

variable {view : RowPageView} {table table' : String} {key key' : RelationalKey}
  {keys next : CheckpointChangeKeys}

/-- A key is in the collected set. -/
def HasChangeKey (keys : CheckpointChangeKeys) (table : String) (key : RelationalKey) : Prop :=
  ∃ known, keys.get table = some known ∧ known.get key = some ()

lemma hasChangeKey_insertChangeKey
    (h : HasChangeKey keys table' key' ∨ table' = table ∧ compare key' key = .eq) :
    HasChangeKey (insertChangeKey keys table key) table' key' := by
  rw [insertChangeKey]
  rcases hknown : ((keys.get table).getD .empty).get key with _ | u
  · dsimp only
    rw [HasChangeKey, get_insert_eq]
    rcases h with ⟨known, hget, hkey⟩ | ⟨rfl, heq⟩
    · split_ifs with htable
      · subst htable
        refine ⟨_, rfl, ?_⟩
        rw [get_insert, hget, Option.getD_some, hkey]
        split_ifs <;> rfl
      · exact ⟨known, hget, hkey⟩
    · rw [if_pos rfl]
      exact ⟨_, rfl, by rw [get_insert, if_pos heq]⟩
  · rcases h with h | ⟨rfl, heq⟩
    · exact h
    · rcases hget : keys.get table' with _ | known
      · rw [hget] at hknown
        cases hknown
      · rw [hget] at hknown
        exact ⟨known, hget, (known.get_congr heq).trans hknown⟩

lemma collectDeltaKeys_spec {context : RowDeltaContext} : ∀ {entries}
    {keys next : CheckpointChangeKeys}, collectDeltaKeys context entries keys = .ok next →
      (∀ table key, HasChangeKey keys table key → HasChangeKey next table key) ∧
      ∀ entry ∈ entries, ∀ t, context.tables[entry.1.tableOrdinal]? = some t → ∀ key,
        decodeOrderedRelationalKey entry.1.encodedPrimaryKey = .ok key →
          HasChangeKey next t.table key
  | [], _, _, h => by
    cases h
    exact ⟨fun _ _ h => h, nofun⟩
  | (entryKey, value) :: entries, keys, next, h => by
    rw [collectDeltaKeys] at h
    rcases htable : context.tables[entryKey.tableOrdinal]? with _ | t
    · rw [htable] at h
      cases h
    rw [htable] at h
    obtain ⟨key, hkey, h⟩ := bind_eq_ok.1 h
    obtain ⟨hkeeps, hcomplete⟩ := collectDeltaKeys_spec h
    refine ⟨fun table' key' h => hkeeps table' key' (hasChangeKey_insertChangeKey (.inl h)),
      forall_mem_cons.2 ⟨fun t' ht' key' hkey' => ?_, hcomplete⟩⟩
    cases htable.symm.trans ht'
    rw [decodeDeltaPrimaryKey, hkey'] at hkey
    cases hkey
    exact hkeeps _ _ (hasChangeKey_insertChangeKey (.inr ⟨rfl, Std.ReflCmp.compare_self⟩))

lemma foldl_insertChangeKey : ∀ (changes : List RelationalRowChange)
    (keys : CheckpointChangeKeys),
    (∀ table key, HasChangeKey keys table key → HasChangeKey
      (changes.foldl (fun keys c => insertChangeKey keys c.table c.primaryKey) keys) table key) ∧
    ∀ c ∈ changes, HasChangeKey
      (changes.foldl (fun keys c => insertChangeKey keys c.table c.primaryKey) keys)
        c.table c.primaryKey
  | [], _ => ⟨fun _ _ h => h, nofun⟩
  | c :: changes, keys => by
    obtain ⟨hkeeps, hcomplete⟩ :=
      foldl_insertChangeKey changes (insertChangeKey keys c.table c.primaryKey)
    exact ⟨fun table key h => hkeeps table key (hasChangeKey_insertChangeKey (.inl h)),
      forall_mem_cons.2 ⟨hkeeps _ _
        (hasChangeKey_insertChangeKey (.inr ⟨rfl, Std.ReflCmp.compare_self⟩)), hcomplete⟩⟩

lemma collectLiveKeys_spec {liveFloor : ℕ} : ∀ {live} {newer : Option ℕ}
    {keys next : CheckpointChangeKeys}, view.collectLiveKeys liveFloor live newer keys = .ok next →
      (∀ table key, HasChangeKey keys table key → HasChangeKey next table key) ∧
      ∀ batch ∈ live, ∀ c ∈ batch.changes, HasChangeKey next c.table c.primaryKey
  | [], _, _, _, h => by
    cases h
    exact ⟨fun _ _ h => h, nofun⟩
  | batch :: live, newer, keys, next, h => by
    rw [collectLiveKeys] at h
    split_ifs at h
    obtain ⟨hkeeps, hcomplete⟩ := collectLiveKeys_spec h
    obtain ⟨hold, hnew⟩ := foldl_insertChangeKey batch.changes keys
    exact ⟨fun table key h => hkeeps table key (hold table key h),
      forall_mem_cons.2 ⟨fun c hc => hkeeps _ _ (hnew c hc), hcomplete⟩⟩

lemma hasChangeKey_of_change {deltaKeys keys : CheckpointChangeKeys}
    (hdelta : view.deltaKeys = .ok deltaKeys)
    (hlive : view.collectLiveKeys view.liveFloorEpoch view.live none deltaKeys = .ok keys)
    {change : RowChangeEntry} (hchange : change ∈ view.changes table) :
    HasChangeKey keys table change.key := by
  obtain ⟨hkeeps, hcomplete⟩ := collectLiveKeys_spec hlive
  rcases mem_append.1 hchange with hchange | hchange
  · rw [RowPageView.deltaChanges] at hchange
    rw [RowPageView.deltaKeys] at hdelta
    rcases hreader : view.delta with _ | reader
    · rw [hreader] at hchange
      cases hchange
    rw [hreader] at hchange hdelta
    obtain ⟨hopened, -⟩ := view.deltaOpened reader hreader
    obtain ⟨run, hrun, entry, hentry, hordinal, hdecoded⟩ := (mem_changesOf hopened).1 hchange
    obtain ⟨t, ht, rfl⟩ := tableOrdinal_eq_some hordinal
    exact hkeeps _ _ ((collectDeltaKeys_spec hdelta).2 entry (mem_flatMap.2 ⟨run, hrun, hentry⟩)
      t ht change.key hdecoded.decode)
  · obtain ⟨batch, hbatch, hchange⟩ := mem_flatMap.1 hchange
    obtain ⟨c, hc, rfl, rfl⟩ := LiveBatch.mem_changesOf.1 hchange
    exact hcomplete batch hbatch c hc

lemma captureKeys_spec : ∀ {keys changes}, view.captureKeys table keys = .ok changes →
      (∀ c ∈ changes, c.table = table ∧ view.overlayValue table c.primaryKey = .ok (some c.row)) ∧
      ∀ key ∈ keys, ∃ c ∈ changes, c.primaryKey = key
  | [], _, h => by
    cases h
    exact ⟨nofun, nofun⟩
  | key :: keys, changes, h => by
    obtain ⟨row, hrow, rest, hrest, h⟩ := bind₂_eq_ok.1 h
    cases h
    obtain ⟨hsound, hcomplete⟩ := captureKeys_spec hrest
    obtain ⟨overlay, hoverlay, hrow⟩ := bind_eq_ok.1 hrow
    cases overlay with
    | none => nomatch hrow
    | some value =>
      cases hrow
      refine ⟨forall_mem_cons.2 ⟨⟨rfl, hoverlay⟩, hsound⟩,
        forall_mem_cons.2 ⟨⟨_, mem_cons_self, rfl⟩, fun k hk => ?_⟩⟩
      obtain ⟨c, hc, hkey⟩ := hcomplete k hk
      exact ⟨c, mem_cons_of_mem _ hc, hkey⟩

lemma intoCapture_spec : ∀ {tables}
    {changes : List RelationalRowChange}, view.intoCapture tables = .ok changes →
      (∀ c ∈ changes, view.overlayValue c.table c.primaryKey = .ok (some c.row)) ∧
      ∀ t ∈ tables, ∀ e ∈ t.2.entries, ∃ c ∈ changes, c.table = t.1 ∧ c.primaryKey = e.1
  | [], _, h => by
    cases h
    exact ⟨nofun, nofun⟩
  | (table, keys) :: tables, changes, h => by
    obtain ⟨first, hfirst, rest, hrest, h⟩ := bind₂_eq_ok.1 h
    cases h
    obtain ⟨hsound, hcomplete⟩ := captureKeys_spec hfirst
    obtain ⟨hsound', hcomplete'⟩ := intoCapture_spec hrest
    refine ⟨forall_mem_append.2 ⟨fun c hc => ?_, hsound'⟩,
      forall_mem_cons.2 ⟨fun e he => ?_, fun t ht e he => ?_⟩⟩
    · obtain ⟨htable, hoverlay⟩ := hsound c hc
      rwa [htable]
    · obtain ⟨c, hc, hkey⟩ := hcomplete e.1 (mem_map.2 ⟨e, he, rfl⟩)
      exact ⟨c, mem_append_left _ hc, (hsound c hc).1, hkey⟩
    · obtain ⟨c, hc, htable⟩ := hcomplete' t ht e he
      exact ⟨c, mem_append_right _ hc, htable⟩

lemma checkpointCapture_spec (h : view.checkpointCapture = .ok captured) :
    (∀ c ∈ captured, view.overlayValue c.table c.primaryKey = .ok (some c.row)) ∧
      ∀ table, ∀ change ∈ view.changes table, ∃ c ∈ captured, c.table = table ∧
        compare c.primaryKey change.key = .eq := by
  obtain ⟨deltaKeys, hdelta, keys, hlive, h⟩ := bind₂_eq_ok.1 h
  obtain ⟨hsound, hcomplete⟩ := intoCapture_spec h
  refine ⟨hsound, fun table change hchange => ?_⟩
  obtain ⟨known, hknown, hkey⟩ := hasChangeKey_of_change hdelta hlive hchange
  obtain ⟨table', hmem, htable⟩ := get_eq_some_iff.1 hknown
  obtain rfl := Std.LawfulEqOrd.eq_of_compare htable
  obtain ⟨k, hk, heq⟩ := get_eq_some_iff.1 hkey
  obtain ⟨c, hc, htable, rfl⟩ := hcomplete _ hmem _ hk
  exact ⟨c, hc, htable, heq⟩

end

/-! ### The rows of a view -/

section

variable {view : RowPageView} {table : String} {key a b : RelationalKey} {x : Bytes}

/-- The row a view shows for a key: the one of its overlay, or else the one of the base. -/
def RowPageView.visibleRow (view : RowPageView) (table : String) (key : RelationalKey) :
    Option RelationalRow :=
  match view.overlayValue table key with
  | .ok (some value) => value
  | _ => view.baseRow table key

lemma lookupEntries_congr {context : RowDeltaContext} (h : compare a b = .eq) :
    ∀ entries, context.lookupEntries table a entries = context.lookupEntries table b entries
  | [] => rfl
  | (entryKey, value) :: entries => by
    rw [lookupEntries, lookupEntries, lookupEntries_congr h entries]
    simp only [Std.TransCmp.congr_right h]

lemma lookupRunsLoop_congr {context : RowDeltaContext} (h : compare a b = .eq) :
    ∀ runs, context.lookupRunsLoop table a target runs = context.lookupRunsLoop table b target runs
  | [] => rfl
  | run :: runs => by
    rw [lookupRunsLoop, lookupRunsLoop, lookupEntries_congr h, lookupRunsLoop_congr h runs]

lemma overlayValue_congr (ha : encodeOrderedRelationalKey a = .ok x)
    (hb : encodeOrderedRelationalKey b = .ok x) :
    view.overlayValue table a = view.overlayValue table b := by
  have heq : compare a b = .eq :=
    (compare_encodeOrderedRelationalKey ha hb).symm.trans Std.ReflCmp.compare_self
  have hcompare : ∀ change, compareChange change table a = compareChange change table b := by
    intro change
    rw [compareChange, compareChange, Std.TransCmp.congr_right heq]
  have hlive : ∀ batch : LiveBatch, batch.overlayValue table a = batch.overlayValue table b := by
    intro batch
    simp only [LiveBatch.overlayValue, hcompare]
  have hdelta : ∀ reader : RowDeltaReader, reader.lookup table a = reader.lookup table b := by
    intro reader
    simp only [RowDeltaReader.lookup, lookupRuns, encodeLookupKey, ha, hb, lookupRunsLoop_congr heq]
  simp only [RowPageView.overlayValue, hlive, hdelta]

end

/-! ### The changes of a table -/

section

variable {view : RowPageView} {config : RowPageConfig} {table : String}
  {x : Bytes} {captured : List RelationalRowChange} {collected : PlannedChanges}

lemma collectChanges_spec : ∀ {changes}
    {collected next : PlannedChanges}, collectChanges config table changes collected = .ok next →
      (∀ c ∈ changes, ∃ x, encodeOrderedRelationalKey c.primaryKey = .ok x ∧
        ∃ v, next.get x = some v) ∧ (∀ x v, collected.get x = some v → ∃ v, next.get x = some v) ∧
      ∀ x v, next.get x = some v → collected.get x = some v ∨
        ∃ c ∈ changes, encodeOrderedRelationalKey c.primaryKey = .ok x ∧ c.row = v
  | [], _, _, h => by
    cases h
    exact ⟨nofun, fun _ v h => ⟨v, h⟩, fun _ _ h => .inl h⟩
  | change :: changes, collected, next, h => by
    rw [collectChanges] at h
    split_ifs at h
    rcases hencoded : encodeOrderedRelationalKey change.primaryKey with e | encoded
    · rw [hencoded] at h
      cases h
    rw [hencoded] at h
    obtain ⟨-, -, h⟩ := bind_eq_ok.1 h
    obtain ⟨hcomplete, hkeeps, hsound⟩ := collectChanges_spec h
    refine ⟨forall_mem_cons.2 ⟨⟨encoded, hencoded, ?_⟩, hcomplete⟩, fun x v hx => ?_,
      fun x v hx => ?_⟩
    · exact hkeeps encoded change.row (by rw [get_insert_eq, if_pos rfl])
    · by_cases heq : x = encoded
      · exact hkeeps x change.row (by rw [get_insert_eq, if_pos heq])
      · exact hkeeps x v (by rw [get_insert_eq, if_neg heq, hx])
    · rcases hsound x v hx with hget | ⟨c, hc, hkey, hrow⟩
      · rw [get_insert_eq] at hget
        split_ifs at hget with heq
        · exact .inr ⟨change, mem_cons_self, heq ▸ hencoded, Option.some.inj hget⟩
        · exact .inl hget
      · exact .inr ⟨c, mem_cons_of_mem _ hc, hkey, hrow⟩

variable (hcapture : view.checkpointCapture = .ok captured)
  (hcollect : collectChanges config table (captured.filter (·.table = table)) .empty = .ok collected)

include hcapture hcollect

lemma visibleRow_eq (hkey : encodeOrderedRelationalKey key = .ok x) :
    view.visibleRow table key = (collected.get x).getD (view.baseRow table key) := by
  obtain ⟨hcaptured, hchanges⟩ := checkpointCapture_spec hcapture
  obtain ⟨hcomplete, -, hsound⟩ := collectChanges_spec hcollect
  rw [RowPageView.visibleRow]
  rcases hget : collected.get x with _ | v
  · rcases hoverlay : view.overlayValue table key with e | _ | value
    · rfl
    · rfl
    · obtain ⟨change, hnewest, -⟩ := overlayValue_spec hoverlay
      obtain ⟨c, hc, rfl, heq⟩ := hchanges table change hnewest.mem
      obtain ⟨y, hy, v, hv⟩ := hcomplete c (mem_filter.2 ⟨hc, by simp⟩)
      have := encodeOrderedRelationalKey_congr (Std.TransCmp.eq_trans heq hnewest.key_eq) hy
      cases this.symm.trans hkey
      cases hv.symm.trans hget
  · rcases hsound x v hget with hnone | ⟨c, hc, hencoded, rfl⟩
    · cases hnone
    · obtain ⟨hc, htable⟩ := mem_filter.1 hc
      rw [overlayValue_congr hkey hencoded, ← of_decide_eq_true htable, hcaptured c hc]
      rfl

lemma encode_of_visibleRow (h : view.visibleRow table key = some row) :
    ∃ x, encodeOrderedRelationalKey key = .ok x := by
  obtain ⟨-, hchanges⟩ := checkpointCapture_spec hcapture
  obtain ⟨hcomplete, -, -⟩ := collectChanges_spec hcollect
  have hbase : view.baseRow table key = some row → ∃ x, encodeOrderedRelationalKey key = .ok x := by
    intro h
    rcases hroot : view.base.get table with _ | root
    · rw [RowPageView.baseRow, hroot] at h
      cases h
    · obtain ⟨entry, hentry, heq, -⟩ := (baseRow_eq_some hroot).1 h
      exact ⟨_, encodeOrderedRelationalKey_congr heq (encode_keyOf (isKeyBytes_of_mem_rows hentry))⟩
  rw [RowPageView.visibleRow] at h
  rcases hoverlay : view.overlayValue table key with e | _ | value
  · rw [hoverlay] at h
    exact hbase h
  · rw [hoverlay] at h
    exact hbase h
  · obtain ⟨change, hnewest, -⟩ := overlayValue_spec hoverlay
    obtain ⟨c, hc, rfl, heq⟩ := hchanges table change hnewest.mem
    obtain ⟨y, hy, -⟩ := hcomplete c (mem_filter.2 ⟨hc, by simp⟩)
    exact ⟨y, encodeOrderedRelationalKey_congr (Std.TransCmp.eq_trans heq hnewest.key_eq) hy⟩

omit hcapture in
lemma exists_key_of_collected (h : collected.get x = some v) :
    ∃ key, encodeOrderedRelationalKey key = .ok x := by
  obtain ⟨-, -, hsound⟩ := collectChanges_spec hcollect
  rcases hsound x v h with hnone | ⟨c, -, hencoded, -⟩
  · cases hnone
  · exact ⟨c.primaryKey, hencoded⟩

end

/-! ### Merging the changes of a page -/

section

variable {rows merged : List RowPageEntry} {changes : PlannedChanges} {x : Bytes}

/-- Two rows that may be missing are equal as relational values. -/
def SameRow : Option RelationalRow → Option RelationalRow → Prop :=
  Option.Rel fun a b => compare a b = .eq

lemma sameRow_refl : ∀ row, SameRow row row
  | none => .none
  | some _ => .some Std.ReflCmp.compare_self

lemma not_sameRow_some {row : Option RelationalRow} {new : RelationalRow} :
    ¬ SameRow row (some new) ↔ (!row.any (compare · new = .eq)) = true := by
  cases row with
  | none => exact ⟨fun _ => rfl, nofun⟩
  | some old =>
    have : SameRow (some old) (some new) ↔ compare old new = .eq :=
      ⟨fun h => by cases h; assumption, fun h => .some h⟩
    simp [this]

lemma not_sameRow_none {row : Option RelationalRow} : ¬ SameRow row none ↔ row.isSome := by
  cases row with
  | none => exact ⟨fun h => (h .none).elim, nofun⟩
  | some old => exact ⟨fun _ => rfl, nofun⟩

lemma loadRows_eq : ∀ {rows merged result},
    loadRows rows merged = .ok result → result = rows.foldl (fun m e => m.insert e.1 e.2) merged
  | [], _, _, h => (Except.ok.inj h).symm
  | entry :: rows, merged, _, h => by
    rw [loadRows] at h
    rcases hget : merged.get entry.1 with _ | row
    · rw [hget] at h
      rw [foldl_cons]
      exact loadRows_eq h
    · rw [hget] at h
      cases h

lemma applyLoop_spec : ∀ {changes}
    {m m' : OrdMap Bytes RelationalRow} {c c' : Bool}, SortedKeys changes →
      applyLoop changes (m, c) = (m', c') →
      (∀ x, m'.get x = ((findEntry x changes).map Prod.snd).getD (m.get x)) ∧
      (c' ↔ c ∨ ∃ e ∈ changes, ¬ SameRow (m.get e.1) e.2)
  | [], _, _, _, _, _, h => by
    cases h
    exact ⟨fun _ => rfl, by simp⟩
  | (encoded, row) :: changes, m, m', c, c', hsorted, h => by
    obtain ⟨hlt, hsorted⟩ := pairwise_cons.1 hsorted
    -- one step writes the change of the key and leaves the other keys
    obtain ⟨m₁, c₁, hstep, hget, hflag⟩ : ∃ m₁ c₁, applyLoop changes (m₁, c₁) = (m', c') ∧
        (∀ x, m₁.get x = if x = encoded then row else m.get x) ∧
        (c₁ ↔ c ∨ ¬ SameRow (m.get encoded) row) := by
      cases row with
      | some row =>
        refine ⟨_, _, h, fun x => get_insert_eq .., ?_⟩
        rw [not_sameRow_some, Bool.or_eq_true]
      | none =>
        refine ⟨_, _, h, fun x => get_remove_eq .., ?_⟩
        rw [not_sameRow_none, Bool.or_eq_true]
    obtain ⟨hvalue, hchanged⟩ := applyLoop_spec hsorted hstep
    refine ⟨fun x => ?_, ?_⟩
    · rw [hvalue, hget]
      by_cases heq : x = encoded
      · subst heq
        have hnone : findEntry x changes = none := findEntry_eq_none fun e he heq =>
          compare_ne_eq_of_lt (hlt e he) heq
        have hfirst : findEntry x ((x, row) :: changes) = some (x, row) := by
          simp [findEntry]
        rw [hnone, hfirst, if_pos rfl]
        rfl
      · have hskip : findEntry x ((encoded, row) :: changes) = findEntry x changes := by
          simp [findEntry, Ne.symm heq]
        rw [hskip, if_neg heq]
    · rw [hchanged, hflag, or_assoc]
      refine or_congr_right ?_
      have hother : ∀ e ∈ changes, m₁.get e.1 = m.get e.1 := fun e he => by
        rw [hget, if_neg fun h => ?_]
        exact compare_ne_eq_of_lt (hlt e he) (Std.LawfulEqOrd.compare_eq_iff_eq.2 h)
      constructor
      · rintro (hne | ⟨e, he, hne⟩)
        · exact ⟨_, mem_cons_self, hne⟩
        · exact ⟨e, mem_cons_of_mem _ he, hother e he ▸ hne⟩
      · rintro ⟨e, he, hne⟩
        rcases mem_cons.1 he with rfl | he
        · exact .inl hne
        · exact .inr ⟨e, he, (hother e he).symm ▸ hne⟩

lemma applyChanges_spec (hsorted : SortedKeys rows)
    (h : applyChanges rows changes = .ok (merged, changed)) :
    SortedKeys merged ∧
      (∀ x, (findEntry x merged).map Prod.snd =
        (changes.get x).getD ((findEntry x rows).map Prod.snd)) ∧
      (changed ↔ ∃ e ∈ changes.entries, ¬ SameRow ((findEntry e.1 rows).map Prod.snd) e.2) := by
  obtain ⟨loaded, hloaded, h⟩ := bind_eq_ok.1 h
  have hentries : loaded.entries = rows := by
    rw [loadRows_eq hloaded]
    exact OrdMap.ofList_entries hsorted
  rcases hloop : applyLoop changes.entries (loaded, false) with ⟨m, c⟩
  rw [hloop] at h
  cases h
  obtain ⟨hvalue, hchanged⟩ := applyLoop_spec changes.sorted hloop
  refine ⟨m.sorted, fun x => ?_, ?_⟩
  · have := hvalue x
    rwa [OrdMap.get, OrdMap.get, hentries] at this
  · simpa only [Bool.false_eq_true, false_or, OrdMap.get, hentries] using hchanged

end

/-! ### Packing -/

section

variable {config : RowPageConfig} {columnCount : ℕ} {state next : PagePackState}
  {page : PlannedPage} {entry : RowPageEntry}

def PagePackState.pendingRows (state : PagePackState) : List RowPageEntry :=
  (state.pending.map (·.rows)).getD []

def PagePackState.ids (state : PagePackState) : Option ℕ × ℕ :=
  (state.firstPageId, state.nextPageId)

/-- The ids of emitted pages: the kept id first, and the others from the allocator. -/
def TakesIds (before : Option ℕ × ℕ) (ids : List ℕ) (after : Option ℕ × ℕ) : Prop :=
  ids = [] ∧ after = before ∨ after.1 = none ∧
    ∃ k, after.2 = before.2 + k ∧ ids = before.1.toList ++ range' before.2 k

lemma TakesIds.trans {ids ids' : List ℕ} (h : TakesIds a ids b)
    (h' : TakesIds b ids' c) : TakesIds a (ids ++ ids') c := by
  rcases h with ⟨rfl, rfl⟩ | ⟨hnone, k, hk, rfl⟩
  · exact h'
  rcases h' with ⟨rfl, rfl⟩ | ⟨hnone', k', hk', rfl⟩
  · exact .inr ⟨hnone, k, hk, append_nil _⟩
  · refine .inr ⟨hnone', k + k', by omega, ?_⟩
    rw [hnone, hk, Option.toList_none, nil_append, append_assoc, range'_append_1]

/-- Packing some rows takes one state to another and emits some pages. -/
structure Packs (state : PagePackState) (rows : List RowPageEntry) (pages : List PlannedPage)
    (next : PagePackState) : Prop where
  dirtyPages : next.dirtyPages = state.dirtyPages ++ pages
  rows : pages.flatMap (·.rows) ++ next.pendingRows = state.pendingRows ++ rows
  nonempty : ∀ page ∈ pages, page.rows ≠ []
  ids : TakesIds state.ids (pages.map (·.pageId)) next.ids

lemma Packs.trans {rows rows' : List RowPageEntry} (h : Packs a rows pages b)
    (h' : Packs b rows' pages' c) : Packs a (rows ++ rows') (pages ++ pages') c where
  dirtyPages := by rw [h'.dirtyPages, h.dirtyPages, append_assoc]
  rows := by
    rw [flatMap_append, append_assoc, h'.rows, ← append_assoc, h.rows, append_assoc]
  nonempty := forall_mem_append.2 ⟨h.nonempty, h'.nonempty⟩
  ids := by
    rw [map_append]
    exact h.ids.trans h'.ids

def PagePackState.PendingNonempty (state : PagePackState) : Prop :=
  ∀ page, state.pending = some page → page.rows ≠ []

lemma takePageId_eq_ok {id nextPageId : ℕ} (h : state.takePageId = .ok (id, nextPageId)) :
    TakesIds state.ids [id] (none, nextPageId) := by
  rw [takePageId] at h
  rcases hfirst : state.firstPageId with _ | first
  · rw [hfirst] at h
    dsimp only at h
    split_ifs at h
    cases h
    exact .inr ⟨rfl, 1, rfl, by rw [ids, hfirst]; rfl⟩
  · rw [hfirst] at h
    cases h
    exact .inr ⟨rfl, 0, rfl, by rw [ids, hfirst]; rfl⟩

lemma emitPending_eq_ok (hpending : state.pending = some page) (hrows : page.rows ≠ [])
    (h : emitPending config state page = .ok next) :
    next.pending = none ∧ Packs state [] [page] next := by
  obtain ⟨⟨expected, nextPageId⟩, htake, h⟩ := bind_eq_ok.1 h
  dsimp only at h
  split_ifs at h with hid
  obtain rfl := not_ne_iff.1 hid
  obtain ⟨_, -, _, -, h⟩ := bind₂_eq_ok.1 h
  obtain ⟨_, -, _, -, h⟩ := bind₂_eq_ok.1 h
  cases h
  refine ⟨rfl, rfl, ?_, by simpa using hrows, takePageId_eq_ok htake⟩
  simp [pendingRows, hpending]

lemma startPage_eq_ok (hpending : state.pending = none)
    (h : startPage config columnCount state entry rowLen = .ok next) :
    next.PendingNonempty ∧ Packs state [entry] [] next := by
  rw [startPage] at h
  split at h
  · cases h
  cases h
  refine ⟨fun page hpage => ?_, (append_nil _).symm, ?_, nofun, .inl ⟨rfl, rfl⟩⟩
  · rw [← Option.some.inj hpage]
    exact cons_ne_nil _ _
  · simp [pendingRows, hpending]

lemma push_eq_ok (hstate : state.PendingNonempty)
    (h : push config columnCount state entry = .ok next) :
    next.PendingNonempty ∧ ∃ pages, Packs state [entry] pages next := by
  rw [push] at h
  by_cases hprevious : state.previousKey.any fun previous => (compare previous entry.1).isGE
  · rw [if_pos hprevious] at h
    cases h
  rw [if_neg hprevious] at h
  dsimp only at h
  generalize (if columnCount ≠ 0 ∧ columnCount ≤ config.maxColumns then
    config.rowLen columnCount entry.2 else none) = rowLen at h
  rcases hpending : state.pending with _ | page
  · rw [hpending] at h
    obtain ⟨hnext, hpacks⟩ := startPage_eq_ok hpending h
    exact ⟨hnext, [], hpacks⟩
  rw [hpending] at h
  dsimp only at h
  split at h
  · cases h
    refine ⟨fun page' hpage => ?_, [], (append_nil _).symm, ?_, nofun, .inl ⟨rfl, rfl⟩⟩
    · rw [← Option.some.inj hpage]
      simp
    · simp [pendingRows, hpending]
  · obtain ⟨emitted, hemit, h⟩ := bind_eq_ok.1 h
    obtain ⟨hnone, hemits⟩ := emitPending_eq_ok hpending (hstate page hpending) hemit
    obtain ⟨hnext, hpacks⟩ := startPage_eq_ok hnone h
    exact ⟨hnext, _, hemits.trans hpacks⟩

lemma packRows_eq_ok : ∀ {rows state next},
    state.PendingNonempty → packRows config columnCount rows state = .ok next →
      next.pending = none ∧ ∃ pages, Packs state rows pages next
  | [], state, next, hstate, h => by
    rw [packRows] at h
    rcases hpending : state.pending with _ | page
    · rw [hpending] at h
      cases h
      exact ⟨hpending, [], by simp, by simp, nofun, .inl ⟨rfl, rfl⟩⟩
    · rw [hpending] at h
      obtain ⟨hnone, hpacks⟩ := emitPending_eq_ok hpending (hstate page hpending) h
      exact ⟨hnone, _, hpacks⟩
  | entry :: rows, state, next, hstate, h => by
    rw [packRows] at h
    obtain ⟨pushed, hpush, h⟩ := bind_eq_ok.1 h
    obtain ⟨hpushed, pages, hpacks⟩ := push_eq_ok hstate hpush
    obtain ⟨hnone, pages', hpacks'⟩ := packRows_eq_ok hpushed h
    exact ⟨hnone, _, hpacks.trans hpacks'⟩

lemma packInto_eq_ok {plan plan' : TablePlan}
    (h : packInto config columnCount first rows plan = .ok plan') :
    ∃ pages left, plan'.dirtyPages = plan.dirtyPages ++ pages ∧
      plan'.deletedPageIds = plan.deletedPageIds ∧ pages.flatMap (·.rows) = rows ∧
      (∀ page ∈ pages, page.rows ≠ []) ∧
      TakesIds (first, plan.nextPageId) (pages.map (·.pageId)) (left, plan'.nextPageId) := by
  obtain ⟨state, hstate, h⟩ := bind_eq_ok.1 h
  cases h
  have hnew : (new first plan.nextPageId plan.dirtyPages plan.dirtyBytes).PendingNonempty := nofun
  obtain ⟨hnone, pages, hpacks⟩ := packRows_eq_ok hnew hstate
  refine ⟨pages, state.firstPageId, hpacks.dirtyPages, rfl, ?_, hpacks.nonempty, hpacks.ids⟩
  have hrows := hpacks.rows
  rw [pendingRows, hnone] at hrows
  exact (append_nil _).symm.trans hrows

end

end HawDB
