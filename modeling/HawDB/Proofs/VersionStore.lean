import HawDB.Result
import HawDB.VersionStore
import HawDB.Proofs.VersionIndex

/-!
# First committer wins

The stamps are lossy, but every key a commit above the history floor wrote still has a stamp at
least as late, or is a read summary and the read barrier is at least as late (`Covers`).
-/

namespace HawDB

open List VersionStore OrdMap Option VersionIndex VersionSnapshotPins

section

variable {V : Type*}

/-- A key has a stamp at an epoch or later, or is covered by such a read barrier. -/
def StampedSince (stamp : VersionKey V → Option VersionStamp) (epoch : ℕ) (key : VersionKey V) :
    Prop :=
  (∃ s, stamp key = some s ∧ epoch ≤ s.commitEpoch) ∨
    key.isReadSummaryKey = true ∧ ∃ s, stamp .readBarrier = some s ∧ epoch ≤ s.commitEpoch

/-- Every key a commit above the floor wrote is stamped since. -/
def Covers (stamp : VersionKey V → Option VersionStamp) (floor : ℕ)
    (history : List (CommitRecord V)) : Prop :=
  ∀ r ∈ history, floor < r.epoch → ∀ key ∈ r.keys, StampedSince stamp r.epoch key

variable {stamp stamp' : VersionKey V → Option VersionStamp} {floor : ℕ}
  {history : List (CommitRecord V)}

variable {key : VersionKey V}

lemma StampedSince.mono (h : StampedSince stamp epoch key)
    (hle : ∀ k s, stamp k = some s → epoch ≤ s.commitEpoch →
      ∃ s', stamp' k = some s' ∧ epoch ≤ s'.commitEpoch) : StampedSince stamp' epoch key := by
  rcases h with ⟨s, hs, hepoch⟩ | ⟨hkey, s, hs, hepoch⟩
  · exact .inl (hle key s hs hepoch)
  · exact .inr ⟨hkey, hle _ s hs hepoch⟩

lemma Covers.mono (h : Covers stamp floor history)
    (hle : ∀ r ∈ history, ∀ k s, stamp k = some s → r.epoch ≤ s.commitEpoch →
      ∃ s', stamp' k = some s' ∧ r.epoch ≤ s'.commitEpoch) : Covers stamp' floor history :=
  fun r hr hlt key hkey => (h r hr hlt key hkey).mono (hle r hr)

lemma Covers.cons {keys : List (VersionKey V)} (h : Covers stamp floor history)
    (hkeys : ∀ key ∈ keys, StampedSince stamp epoch key) :
    Covers stamp floor (⟨epoch, keys⟩ :: history) := by
  intro r hr hlt key hkey
  rcases mem_cons.1 hr with rfl | hr
  · exact hkeys key hkey
  · exact h r hr hlt key hkey

lemma Covers.of_floor (h : ∀ r ∈ history, r.epoch ≤ floor) : Covers stamp floor history :=
  fun r hr hlt => absurd hlt (h r hr).not_gt

lemma Covers.reclaim (h : Covers stamp floor history) (hstamp : ∀ key, stamp' key = stamp key ∨
      stamp' key = none ∧ ∃ s, stamp key = some s ∧ s.commitEpoch < oldestReaderEpoch) :
    Covers stamp' (max floor (oldestReaderEpoch - 1)) history := by
  intro r hr hlt key hkey
  rw [max_lt_iff] at hlt
  refine (h r hr hlt.1 key hkey).mono fun k s hs hepoch => ?_
  rcases hstamp k with hsame | ⟨-, s', hs', hold⟩
  · exact ⟨s, hsame.trans hs, hepoch⟩
  -- a stamp that is dropped is at or below the new floor
  rw [hs, some.injEq] at hs'
  subst hs'
  omega

variable [Ord V]

lemma VersionWriteSet.stampOver_eq_none_or {writes : VersionWriteSet V}
    (before : Option VersionStamp) :
    (writes.writes.get key = none ∧ writes.stampOver epoch key before = before) ∨
      ∃ s, writes.stampOver epoch key before = some s ∧ s.commitEpoch = epoch := by
  unfold stampOver
  rcases writes.writes.get key with _ | w
  · exact .inl ⟨rfl, rfl⟩
  · exact .inr ⟨_, rfl, rfl⟩

lemma VersionWriteSet.stampOver_of_isSome {writes : VersionWriteSet V}
    (h : (writes.writes.get key).isSome) (epoch : ℕ) (before : Option VersionStamp) :
    ∃ s, writes.stampOver epoch key before = some s ∧ epoch ≤ s.commitEpoch := by
  rcases writes.stampOver_eq_none_or before with ⟨hnone, -⟩ | ⟨s, hs, hepoch⟩
  · rw [hnone] at h
    cases h
  · exact ⟨s, hs, hepoch.ge⟩

def VersionWriteSet.Stamps (writes : VersionWriteSet V) (key : VersionKey V) : Prop :=
  (writes.writes.get key).isSome ∨
    key.isReadSummaryKey = true ∧ (writes.writes.get .readBarrier).isSome

lemma VersionWriteSet.Stamps.stampedSince {writes : VersionWriteSet V} (h : writes.Stamps key)
    (epoch : ℕ) (before : VersionKey V → Option VersionStamp) :
    StampedSince (fun key => writes.stampOver epoch key (before key)) epoch key :=
  h.imp (fun h => stampOver_of_isSome h epoch _)
    fun ⟨hsummary, h⟩ => ⟨hsummary, stampOver_of_isSome h epoch _⟩

lemma Covers.stampOver (h : Covers stamp floor history) (writes : VersionWriteSet V)
    (hlast : ∀ r ∈ history, r.epoch ≤ epoch) :
    Covers (fun key => writes.stampOver epoch key (stamp key)) floor history := by
  refine h.mono fun r hr k s hs hepoch => ?_
  rcases writes.stampOver_eq_none_or (stamp k) with ⟨-, hsame⟩ | ⟨s', hs', hnew⟩
  · exact ⟨s, hsame.trans hs, hepoch⟩
  · exact ⟨s', hs', hnew ▸ hlast r hr⟩

lemma Covers.collapse [Std.TransOrd V] (h : Covers stamp floor history)
    (writes : VersionWriteSet V) (hlast : ∀ r ∈ history, r.epoch ≤ epoch) :
    Covers (fun key => if compare key .readBarrier = .eq then some ⟨epoch, .live⟩
      else writes.stampOver epoch key (if key.isReadSummaryKey then none else stamp key))
      floor history := by
  intro r hr hlt key hkey
  by_cases hsummary : key.isReadSummaryKey
  · exact .inr ⟨hsummary, ⟨epoch, .live⟩, if_pos Std.ReflCmp.compare_self, hlast r hr⟩
  rcases h r hr hlt key hkey with ⟨s, hs, hepoch⟩ | ⟨hsummary', -⟩
  · refine .inl ?_
    dsimp only
    split_ifs with hbarrier
    · exact ⟨_, rfl, hlast r hr⟩
    · rcases writes.stampOver_eq_none_or (stamp key) with ⟨-, hsame⟩ | ⟨s', hs', hnew⟩
      · exact ⟨s, hsame.trans hs, hepoch⟩
      · exact ⟨s', hs', hnew ▸ hlast r hr⟩
  · exact absurd hsummary' hsummary

end

namespace VersionWriteSet

variable {V : Type*} [Ord V] [Std.TransOrd V] [CowPageWeight V] [TypeSizes]

omit [Std.TransOrd V] [CowPageWeight V] [TypeSizes] in
lemma get_isSome_update {m : OrdMap (VersionKey V) VersionWrite}
    {f : VersionWrite → VersionWrite} (h : (m.get k').isSome) :
    ((m.update k f).get k').isSome = true := by
  unfold OrdMap.get at h ⊢
  rw [isSome_map, findEntry_isSome_iff] at h ⊢
  obtain ⟨e, he, hk⟩ := h
  refine ⟨if compare e.1 k = .eq then (e.1, f e.2) else e, mem_map.2 ⟨e, he, rfl⟩, ?_⟩
  split_ifs <;> exact hk

lemma record_spec {s s' : VersionWriteSet V}
    (h : s.record key disposition = .ok s') : (s'.writes.get key).isSome = true ∧
      ∀ k, (s.writes.get k).isSome → (s'.writes.get k).isSome := by
  unfold record at h
  split_ifs at h with hcontains
  · cases h
    exact ⟨get_isSome_update hcontains, fun k hk => get_isSome_update hk⟩
  split at h
  · cases h
  cases h
  refine ⟨?_, fun k hk => ?_⟩
  · rw [get_insert, if_pos Std.ReflCmp.compare_self]
    rfl
  · rw [get_insert]
    split_ifs
    · rfl
    · exact hk

lemma foldlM_recordLive_spec : ∀ {keys : List (VersionKey V)} {s s' : VersionWriteSet V},
    keys.foldlM recordLive s = .ok s' →
      (∀ key ∈ keys, (s'.writes.get key).isSome) ∧
        ∀ k, (s.writes.get k).isSome → (s'.writes.get k).isSome
  | [], s, s', h => by
    cases h
    exact ⟨fun _ hk => absurd hk not_mem_nil, fun _ hk => hk⟩
  | key :: keys, s, s', h => by
    rw [foldlM_cons] at h
    rcases hrecord : s.recordLive key with e | s₁
    · rw [hrecord] at h
      cases h
    rw [hrecord] at h
    obtain ⟨hkey, hkeep⟩ := record_spec hrecord
    obtain ⟨hkeys, hkeep'⟩ := foldlM_recordLive_spec (s := s₁) h
    refine ⟨fun k hk => ?_, fun k hk => hkeep' k (hkeep k hk)⟩
    rcases mem_cons.1 hk with rfl | hk
    · exact hkeep' _ hkey
    · exact hkeys k hk

end VersionWriteSet

section

variable {V : Type*} [Ord V] [CowPageWeight V] [TypeSizes]

/-- A well-formed index that covers the history. -/
structure VersionIndex.Tracks (index : VersionIndex V) (history : List (CommitRecord V)) :
    Prop where
  wf : index.WF
  covers : Covers index.stamp index.historyFloor history

namespace VersionIndex.Tracks

variable {index index' : VersionIndex V} {history : List (CommitRecord V)}

lemma same (h : index.Tracks history) (hs : index.Same index') : index'.Tracks history where
  wf := hs.wf
  covers := by
    rw [hs.floor, funext hs.stamp]
    exact h.covers

lemma reclaims (h : index.Tracks history)
    (hr : index.Reclaims oldestReaderEpoch index') : index'.Tracks history where
  wf := hr.wf
  covers := by
    rw [hr.floor]
    exact h.covers.reclaim hr.stamp

lemma readBaseline (hlast : ∀ r ∈ history, r.epoch ≤ epoch) :
    (index.readBaseline epoch).Tracks history :=
  ⟨wf_readBaseline epoch, .of_floor hlast⟩

variable [Std.TransOrd V]

lemma stage (h : index.Tracks history) (hlast : ∀ r ∈ history, r.epoch ≤ epoch)
    (env : HistoryEnv) {writes : VersionWriteSet V} {keys : List (VersionKey V)}
    (hkeys : ∀ key ∈ keys, writes.Stamps key) : (index.stage env writes epoch).1.Tracks history ∧
      (index.stage env writes epoch).1.historyFloor = index.historyFloor ∧
      ∀ staged, (index.stage env writes epoch).2 = some staged →
        staged.Tracks (⟨epoch, keys⟩ :: history) ∧ staged.historyFloor = index.historyFloor := by
  obtain ⟨hself, hstaged⟩ := stage_spec h.wf env writes epoch
  refine ⟨h.same hself, hself.floor, fun staged hs => ?_⟩
  have hc := hstaged staged hs
  refine ⟨⟨hc.wf, ?_⟩, hc.floor⟩
  rw [hc.floor, funext hc.stamp]
  exact (h.covers.stampOver writes hlast).cons fun key hkey =>
    (hkeys key hkey).stampedSince epoch _

lemma stageWithReadBarrier (h : index.Tracks history)
    (hlast : ∀ r ∈ history, r.epoch ≤ epoch) (env : HistoryEnv) {writes : VersionWriteSet V}
    {keys : List (VersionKey V)}
    (hkeys : ∀ key ∈ keys, (writes.writes.get key).isSome ∨ key.isReadSummaryKey) :
    (index.stageWithReadBarrier env writes epoch).1.Tracks history ∧
      (index.stageWithReadBarrier env writes epoch).1.historyFloor = index.historyFloor ∧
      ∀ staged, (index.stageWithReadBarrier env writes epoch).2 = some staged →
        staged.Tracks (⟨epoch, keys⟩ :: history) ∧ staged.historyFloor = index.historyFloor := by
  obtain ⟨hself, hstaged⟩ := stageWithReadBarrier_spec h.wf env writes epoch
  refine ⟨h.same hself, hself.floor, fun staged hs => ?_⟩
  obtain ⟨hwf, hfloor, hstamp⟩ := hstaged staged hs
  refine ⟨⟨hwf, ?_⟩, hfloor⟩
  rw [hfloor, funext hstamp]
  refine (h.covers.collapse writes hlast).cons fun key hkey => ?_
  rcases hkeys key hkey with hsome | hsummary
  · refine .inl ?_
    dsimp only
    split
    · exact ⟨_, rfl, le_rfl⟩
    · exact VersionWriteSet.stampOver_of_isSome hsome epoch _
  · exact .inr ⟨hsummary, ⟨epoch, .live⟩, if_pos Std.ReflCmp.compare_self, le_rfl⟩

end VersionIndex.Tracks

end

section

variable {pins : VersionSnapshotPins} {epoch : ℕ}

lemma VersionSnapshotPins.oldestEpoch_le (h : (pins.get epoch).isSome) :
    ∃ oldest, pins.oldestEpoch = some oldest ∧ oldest ≤ epoch := by
  unfold OrdMap.get at h
  rw [isSome_map, findEntry_isSome_iff] at h
  obtain ⟨e, he, hk⟩ := h
  rw [Nat.compare_eq_eq] at hk
  unfold oldestEpoch
  have hsorted := pins.sorted
  rcases hl : pins.entries with _ | ⟨a, l⟩
  · rw [hl] at he
    exact absurd he not_mem_nil
  rw [hl] at he hsorted
  refine ⟨a.1, rfl, ?_⟩
  rcases mem_cons.1 he with rfl | he
  · exact hk.le
  · have hlt := (pairwise_cons.1 hsorted).1 e he
    rw [Nat.compare_eq_lt] at hlt
    omega

lemma VersionSnapshotPins.get_oldestEpoch_isSome (h : pins.oldestEpoch = some epoch) :
    (pins.get epoch).isSome = true := by
  obtain ⟨e, he, rfl⟩ := map_eq_some_iff.1 h
  rw [OrdMap.get, isSome_map, findEntry_isSome_iff]
  exact ⟨e, mem_of_mem_head? he, Std.ReflCmp.compare_self⟩

/-- The number of registrations of an epoch. -/
def VersionSnapshotPins.count (pins : VersionSnapshotPins) (epoch : ℕ) : ℕ :=
  (pins.get epoch).getD 0

lemma VersionSnapshotPins.isSome_of_count_pos (h : 0 < pins.count epoch) :
    (pins.get epoch).isSome = true := by
  unfold count at h
  rcases hget : pins.get epoch with _ | n
  · rw [hget] at h
    exact absurd h (lt_irrefl 0)
  · rfl

lemma VersionSnapshotPins.count_pin (e : ℕ) :
    (pins.pin e).count epoch = pins.count epoch + if e = epoch then 1 else 0 := by
  unfold count pin
  rw [get_insert_eq]
  by_cases h : epoch = e
  · rw [if_pos h, if_pos h.symm, h]
    rfl
  · rw [if_neg h, if_neg (Ne.symm h), add_zero]

lemma VersionSnapshotPins.count_unpin (e : ℕ) :
    (pins.unpin e).count epoch = pins.count epoch - if e = epoch then 1 else 0 := by
  unfold count unpin
  by_cases h : e = epoch
  · subst h
    rw [if_pos rfl]
    rcases hget : pins.get e with _ | n
    · dsimp only
      rw [hget]
      rfl
    dsimp only
    split_ifs with hzero
    · rw [get_remove_eq, if_pos rfl]
      exact hzero.symm
    · rw [get_update_eq, if_pos rfl, hget]
      rfl
  · rw [if_neg h, Nat.sub_zero]
    rcases pins.get e with _ | n
    · rfl
    dsimp only
    split_ifs
    · rw [get_remove_eq, if_neg (Ne.symm h)]
    · rw [get_update_eq, if_neg (Ne.symm h)]

lemma VersionSnapshotPins.get_pin_isSome (h : ((pins.pin e).get epoch).isSome) :
    epoch = e ∨ (pins.get epoch).isSome := by
  unfold pin at h
  rw [get_insert_eq] at h
  split_ifs at h with heq
  · exact .inl heq
  · exact .inr h

lemma VersionSnapshotPins.get_unpin_isSome
    (h : ((pins.unpin e).get epoch).isSome) : (pins.get epoch).isSome := by
  unfold unpin at h
  split at h
  · exact h
  split_ifs at h
  · rw [get_remove] at h
    split_ifs at h
    · cases h
    · exact h
  · rw [get_update] at h
    split_ifs at h
    · rwa [isSome_map] at h
    · exact h

end

namespace VersionStore

variable {V : Type*} [Ord V] [CowPageWeight V] [TypeSizes] {store : VersionStore V}
  {history : List (CommitRecord V)} {reader : Option ℕ}

/-- The index covers the history up to the current epoch, and has kept what a registered reader
needs. -/
structure Tracks (store : VersionStore V) (history : List (CommitRecord V)) (reader : Option ℕ) :
    Prop where
  index : store.versionIndex.Tracks history
  last : ∀ r ∈ history, r.epoch ≤ store.commitEpoch
  reclaimed : store.versionIndex.historyFloor ≤ store.commitEpoch
  pins : ∀ e, (store.versionSnapshotPins.get e).isSome → e ≤ store.commitEpoch
  pinned : ∀ e ∈ reader, (store.versionSnapshotPins.get e).isSome
  floor : ∀ e ∈ reader, store.versionIndex.historyFloor ≤ e

lemma tracks_new (epoch maxEstimatedBytes maxHistoryBytes : ℕ) :
    (new epoch maxEstimatedBytes maxHistoryBytes : VersionStore V).Tracks [] none where
  index := ⟨wf_withHistoryLimit _ _, fun _ hr => absurd hr not_mem_nil⟩
  last _ hr := absurd hr not_mem_nil
  reclaimed := Nat.zero_le _
  pins _ he := nomatch he
  pinned _ he := nomatch he
  floor _ he := nomatch he

section

variable (h : store.Tracks history reader)

include h

lemma Tracks.with_index {index : VersionIndex V} (hindex : index.Tracks history)
    (hreclaimed : index.historyFloor ≤ store.commitEpoch)
    (hfloor : ∀ e ∈ reader, index.historyFloor ≤ e) :
    ({ store with versionIndex := index } : VersionStore V).Tracks history reader :=
  ⟨hindex, h.last, hreclaimed, h.pins, h.pinned, hfloor⟩

lemma Tracks.watermark_le_succ : store.watermark ≤ store.commitEpoch + 1 := by
  unfold watermark
  rcases holdest : store.versionSnapshotPins.oldestEpoch with _ | oldest
  · exact satAdd_le _ _
  · exact (h.pins oldest (VersionSnapshotPins.get_oldestEpoch_isSome holdest)).trans (Nat.le_succ _)

lemma Tracks.watermark_le (he : e ∈ reader) : store.watermark ≤ e := by
  obtain ⟨oldest, holdest, hle⟩ := oldestEpoch_le (h.pinned e he)
  unfold watermark
  rwa [holdest]

lemma Tracks.commitEpoch_le_of_usesBaseline (hbase : store.usesBaseline)
    (he : e ∈ reader) : store.commitEpoch ≤ e := by
  obtain ⟨oldest, holdest, hle⟩ := oldestEpoch_le (h.pinned e he)
  unfold usesBaseline at hbase
  rw [holdest] at hbase
  exact (of_decide_eq_true hbase).trans hle

lemma Tracks.reclaims {index : VersionIndex V} (hle : oldestReaderEpoch ≤ store.watermark)
    (hr : store.versionIndex.Reclaims oldestReaderEpoch index) :
    ({ store with versionIndex := index } : VersionStore V).Tracks history reader := by
  have hsucc := h.watermark_le_succ
  have hreclaimed := h.reclaimed
  refine h.with_index (h.index.reclaims hr) (hr.floor.trans_le (by omega)) fun e he => ?_
  have hfloor := h.floor e he
  have hmark := h.watermark_le he
  rw [hr.floor]
  omega

lemma Tracks.with_pins {pins : VersionSnapshotPins}
    (hpins : ∀ e, (pins.get e).isSome → e ≤ store.commitEpoch)
    (hpinned : ∀ e ∈ reader', (pins.get e).isSome)
    (hreader : ∀ e ∈ reader', e ∈ reader ∨ e = store.commitEpoch) :
    ({ store with versionSnapshotPins := pins } : VersionStore V).Tracks history reader' :=
  ⟨h.index, h.last, h.reclaimed, hpins, hpinned, fun e he =>
    (hreader e he).elim (h.floor e) fun heq => heq ▸ h.reclaimed⟩

end

omit [CowPageWeight V] [TypeSizes] in
lemma snapshotEpoch_le (store : VersionStore V) (inherited : Option ℕ) :
    store.snapshotEpoch inherited ≤ store.commitEpoch := by
  cases inherited
  · exact le_rfl
  · exact min_le_right _ _

variable [Std.TransOrd V]

lemma Tracks.reclaimVersionHistory (h : store.Tracks history reader) (env : HistoryEnv) :
    (store.reclaimVersionHistory env).Tracks history reader :=
  h.reclaims le_rfl (pruneBefore_reclaims h.index.wf env _)

omit [Std.TransOrd V] in
lemma Tracks.baseVersions (h : store.Tracks history reader) :
    store.baseVersions.Tracks history ∧ store.baseVersions.historyFloor ≤ store.commitEpoch ∧
      ∀ e ∈ reader, store.baseVersions.historyFloor ≤ e := by
  unfold VersionStore.baseVersions
  split_ifs with hbase
  · exact ⟨.readBaseline h.last, le_rfl, fun e he => h.commitEpoch_le_of_usesBaseline hbase he⟩
  · exact ⟨h.index, h.reclaimed, h.floor⟩

variable {keys : List (VersionKey V)}

lemma stageOn_spec {versions : VersionIndex V} (h : versions.Tracks history)
    (hlast : ∀ r ∈ history, r.epoch ≤ epoch) (env : HistoryEnv) {writes : VersionWriteSet V}
    {readBarrier : Bool}
    (hkeys : ∀ key ∈ keys, writes.Stamps key ∨ readBarrier ∧ key.isReadSummaryKey) :
    (stageOn versions env writes epoch readBarrier).1.Tracks history ∧
      (stageOn versions env writes epoch readBarrier).1.historyFloor = versions.historyFloor ∧
      ∀ staged, (stageOn versions env writes epoch readBarrier).2 = .ok staged →
        staged.Tracks (⟨epoch, keys⟩ :: history) ∧ staged.historyFloor = versions.historyFloor := by
  have hstage : ∀ result, stageCommit versions env writes epoch readBarrier = result →
      result.1.Tracks history ∧ result.1.historyFloor = versions.historyFloor ∧
        ∀ staged, result.2 = some staged → staged.Tracks (⟨epoch, keys⟩ :: history) ∧
          staged.historyFloor = versions.historyFloor := by
    rintro result rfl
    cases readBarrier
    · exact h.stage hlast env fun key hkey => (hkeys key hkey).resolve_right fun hb => nomatch hb.1
    · exact h.stageWithReadBarrier hlast env fun key hkey =>
        (hkeys key hkey).elim (Or.imp_right And.left) fun hb => .inr hb.2
  unfold stageOn
  split
  · exact ⟨h, rfl, nofun⟩
  split
  · rename_i heq
    obtain ⟨hself, hfloor, hstaged⟩ := hstage _ heq
    refine ⟨hself, hfloor, fun staged hs => hstaged staged ?_⟩
    cases hs
    rfl
  · rename_i heq
    obtain ⟨hself, hfloor, -⟩ := hstage _ heq
    exact ⟨hself, hfloor, nofun⟩

/-- Staging a commit: the store still tracks the history, and with what is staged the commit too. -/
structure Stages (store : VersionStore V) (history : List (CommitRecord V)) (reader : Option ℕ)
    (record : CommitRecord V) (store' : VersionStore V) (staged : Option (VersionIndex V)) :
    Prop where
  epoch : store'.commitEpoch = store.commitEpoch
  tracks : store'.Tracks history reader
  staged : ∀ index, staged = some index →
    ({ store' with commitEpoch := record.epoch, versionIndex := index } : VersionStore V).Tracks
      (record :: history) reader

lemma Tracks.stageVersionIndex (h : store.Tracks history reader)
    (hepoch : store.commitEpoch ≤ epoch) (env : HistoryEnv) {readBarrier : Bool}
    (hkeys : ∀ key ∈ keys, writes.Stamps key ∨ readBarrier ∧ key.isReadSummaryKey) :
    Stages store history reader ⟨epoch, keys⟩
      (store.stageVersionIndex env writes epoch readBarrier).1
      (store.stageVersionIndex env writes epoch readBarrier).2.toOption := by
  have hlast : ∀ r ∈ history, r.epoch ≤ epoch := fun r hr => (h.last r hr).trans hepoch
  obtain ⟨hbase, hreclaimed, hfloor⟩ := h.baseVersions
  obtain ⟨hself, hselfFloor, hstaged⟩ := stageOn_spec hbase hlast env hkeys
  have htracks : (store.stageVersionIndex env writes epoch readBarrier).1.commitEpoch =
        store.commitEpoch ∧
      (store.stageVersionIndex env writes epoch readBarrier).1.Tracks history reader := by
    simp only [VersionStore.stageVersionIndex]
    split_ifs with hb
    · exact ⟨rfl, h⟩
    · exact ⟨rfl, h.with_index hself (hselfFloor.trans_le hreclaimed) fun e he =>
        hselfFloor.trans_le (hfloor e he)⟩
  refine ⟨htracks.1, htracks.2, fun index hindex => ?_⟩
  obtain ⟨hindex, hindexFloor⟩ := hstaged index (toOption_eq_some_iff.1 hindex)
  refine ⟨hindex, fun r hr => ?_, (hindexFloor.trans_le hreclaimed).trans hepoch,
    fun e he => ((htracks.2.pins e he).trans_eq htracks.1).trans hepoch, htracks.2.pinned,
    fun e he => hindexFloor.trans_le (hfloor e he)⟩
  rcases mem_cons.1 hr with rfl | hr
  · exact le_rfl
  · exact hlast r hr

/-- A key the commit is sure to stamp or to cover: one of its write set, or a read summary unless
it has collected the summaries and neither this one nor the read barrier is among them. -/
def Announces (request : CommitRequest V) (key : VersionKey V) : Prop :=
  (request.writes.writes.get key).isSome ∨
    key.isReadSummaryKey = true ∧ ∀ summaries, request.summaries = some summaries →
      ∃ k ∈ summaries, compare k key = .eq ∨ k = .readBarrier

variable {request : CommitRequest V} {key : VersionKey V}

lemma Announces.stamps (h : Announces request key)
    (hwrites : request.withReadSummaries = some writes) : writes.Stamps key := by
  obtain ⟨summaries, hsummaries, hfold⟩ := bind_eq_some_iff.1 hwrites
  obtain ⟨hnew, hold⟩ := VersionWriteSet.foldlM_recordLive_spec (toOption_eq_some_iff.1 hfold)
  rcases h with hkey | ⟨hsummary, hcollected⟩
  · exact .inl (hold key hkey)
  · obtain ⟨k, hk, heq | rfl⟩ := hcollected summaries hsummaries
    · exact .inl (get_congr writes.writes heq ▸ hnew k hk)
    · exact .inr ⟨hsummary, hnew _ hk⟩

lemma Tracks.stageWithSummaries (h : store.Tracks history reader)
    (hepoch : store.commitEpoch ≤ epoch) (env : HistoryEnv)
    (hkeys : ∀ key ∈ keys, Announces request key) :
    Stages store history reader ⟨epoch, keys⟩ (store.stageWithSummaries env request epoch).1
      (store.stageWithSummaries env request epoch).2 := by
  unfold VersionStore.stageWithSummaries
  rcases hwrites : request.withReadSummaries with _ | writes
  · exact ⟨rfl, h, nofun⟩
  · exact h.stageVersionIndex hepoch env fun key hkey => .inl ((hkeys key hkey).stamps hwrites)

omit [Std.TransOrd V] in
lemma Stages.trans {store₁ store₂ : VersionStore V}
    {staged : Option (VersionIndex V)} (hepoch : store₁.commitEpoch = store.commitEpoch)
    (h : Stages store₁ history reader record store₂ staged) :
    Stages store history reader record store₂ staged :=
  ⟨h.epoch.trans hepoch, h.tracks, h.staged⟩

lemma Tracks.prepareVersions (h : store.Tracks history reader)
    (hepoch : store.commitEpoch ≤ epoch) (env : CommitEnv)
    (hkeys : ∀ key ∈ keys, Announces request key) :
    Stages store history reader ⟨epoch, keys⟩ (store.prepareVersions env request epoch).1
      (store.prepareVersions env request epoch).2.toOption := by
  unfold VersionStore.prepareVersions
  have hfirst := h.stageWithSummaries hepoch env.first hkeys
  split
  · rename_i heq
    rw [heq] at hfirst
    exact hfirst
  rename_i store₁ heq
  rw [heq] at hfirst
  have hepoch₁ : (store₁.reclaimVersionHistory env.reclaim).commitEpoch = store.commitEpoch :=
    hfirst.epoch
  have hsecond := (hfirst.tracks.reclaimVersionHistory env.reclaim).stageWithSummaries
    (hepoch₁.trans_le hepoch) env.second hkeys
  dsimp only
  split
  · rename_i heq'
    rw [heq'] at hsecond
    exact hsecond.trans hepoch₁
  rename_i store₂ heq'
  rw [heq'] at hsecond
  have hepoch₂ : store₂.commitEpoch = store.commitEpoch := hsecond.epoch.trans hepoch₁
  have hmem : ∀ key ∈ keys, request.writes.Stamps key ∨
      true ∧ key.isReadSummaryKey := fun key hkey =>
    (hkeys key hkey).imp .inl fun hs => ⟨rfl, hs.1⟩
  exact (hsecond.tracks.stageVersionIndex (hepoch₂.trans_le hepoch) env.collapsed hmem).trans
    hepoch₂

/-- A commit that succeeds has been validated and joins the history; one that fails changes nothing
a reader could see. -/
theorem Tracks.commit (h : store.Tracks history reader) (env : CommitEnv)
    (hkeys : ∀ key ∈ keys, Announces request key) :
    match store.commit env request with
    | (store', .ok epoch) =>
      store.commitEpoch + 1 = epoch ∧ store.validateCommit request = .ok () ∧
        store'.commitEpoch = epoch ∧ store'.Tracks (⟨epoch, keys⟩ :: history) reader
    | (store', .error _) =>
      store'.commitEpoch = store.commitEpoch ∧ store'.Tracks history reader := by
  unfold VersionStore.commit
  rcases hadd : checkedAdd store.commitEpoch 1 with _ | epoch
  · exact ⟨rfl, h⟩
  obtain ⟨hepoch, -⟩ := checkedAdd_eq_some.1 hadd
  rcases hvalid : store.validateCommit request with e | ⟨⟩
  · exact ⟨rfl, h⟩
  have hprepare := h.prepareVersions ((Nat.le_succ _).trans_eq hepoch) env hkeys
  dsimp only
  rcases hresult : store.prepareVersions env request epoch with ⟨store', e | staged⟩
  · rw [hresult] at hprepare
    exact ⟨hprepare.epoch, hprepare.tracks⟩
  rw [hresult] at hprepare
  rcases env.wal with e | ⟨⟩
  · exact ⟨hprepare.epoch, hprepare.tracks⟩
  · exact ⟨hepoch, rfl, rfl, hprepare.staged staged rfl⟩

section

lemma stageVersionIndex_pins (store : VersionStore V) (env : HistoryEnv)
    (writes : VersionWriteSet V) (epoch : ℕ) (readBarrier : Bool) :
    (store.stageVersionIndex env writes epoch readBarrier).1.versionSnapshotPins =
      store.versionSnapshotPins := by
  unfold stageVersionIndex
  dsimp only
  split_ifs <;> rfl

lemma stageWithSummaries_pins (store : VersionStore V) (env : HistoryEnv)
    (request : CommitRequest V) (epoch : ℕ) :
    (store.stageWithSummaries env request epoch).1.versionSnapshotPins =
      store.versionSnapshotPins := by
  unfold stageWithSummaries
  split
  · rfl
  · exact stageVersionIndex_pins _ _ _ _ _

lemma prepareVersions_pins (store : VersionStore V) (env : CommitEnv)
    (request : CommitRequest V) (epoch : ℕ) :
    (store.prepareVersions env request epoch).1.versionSnapshotPins =
      store.versionSnapshotPins := by
  unfold prepareVersions
  have hfirst := store.stageWithSummaries_pins env.first request epoch
  split
  · rename_i heq
    rwa [heq] at hfirst
  rename_i store₁ heq
  rw [heq] at hfirst
  have hsecond := (store₁.reclaimVersionHistory env.reclaim).stageWithSummaries_pins env.second
    request epoch
  dsimp only
  split
  · rename_i heq'
    rw [heq'] at hsecond
    exact hsecond.trans hfirst
  · rename_i heq'
    rw [heq'] at hsecond
    exact (stageVersionIndex_pins _ _ _ _ _).trans (hsecond.trans hfirst)

lemma commit_pins (store : VersionStore V) (env : CommitEnv) (request : CommitRequest V) :
    (store.commit env request).1.versionSnapshotPins = store.versionSnapshotPins := by
  unfold commit
  rcases checkedAdd store.commitEpoch 1 with _ | epoch
  · rfl
  rcases store.validateCommit request with e | ⟨⟩
  · rfl
  have hprepare := store.prepareVersions_pins env request epoch
  dsimp only
  rcases hresult : store.prepareVersions env request epoch with ⟨store', e | staged⟩
  · rwa [hresult] at hprepare
  · rw [hresult] at hprepare
    rcases env.wal with e | ⟨⟩ <;> exact hprepare

end

lemma Tracks.finishNonRelationalCommit (h : store.Tracks history reader) :
    store.finishNonRelationalCommit.Tracks (⟨store.commitEpoch + 1, [.database]⟩ :: history)
      reader := by
  have hstamp := stamp_insertStamp h.index.wf (fun _ => false) .database
    ⟨store.commitEpoch + 1, .live⟩
  have hlast : ∀ r ∈ history, r.epoch ≤ store.commitEpoch + 1 := fun r hr =>
    (h.last r hr).trans (Nat.le_succ _)
  refine ⟨⟨h.index.wf, Covers.cons (h.index.covers.mono fun r hr k s hs hepoch => ?_)
    fun key hkey => .inl ?_⟩, fun r hr => ?_, h.reclaimed.trans (Nat.le_succ _),
    fun e he => (h.pins e he).trans (Nat.le_succ _), h.pinned, h.floor⟩
  · by_cases hk : compare k .database = .eq
    · exact ⟨_, (hstamp k).trans (if_pos hk), hlast r hr⟩
    · exact ⟨s, ((hstamp k).trans (if_neg hk)).trans hs, hepoch⟩
  · rw [mem_singleton.1 hkey]
    exact ⟨_, rfl, le_rfl⟩
  · rcases mem_cons.1 hr with rfl | hr
    · exact le_rfl
    · exact hlast r hr

section

variable {readEpoch : ℕ} {writes : VersionWriteSet V}

omit [CowPageWeight V] [TypeSizes] [Std.TransOrd V] in
lemma stamp_le_of_validateBarrier (h : store.validateBarrier writes readEpoch key = .ok ())
    {s : VersionStamp} (hs : store.versionIndex.stamp key = some s) :
    s.commitEpoch ≤ readEpoch := by
  unfold validateBarrier at h
  rw [hs] at h
  dsimp only at h
  split_ifs at h with hwrites hlt
  exact not_lt.1 hlt

omit [CowPageWeight V] [TypeSizes] [Std.TransOrd V] in
lemma of_validateVersionWrites (h : store.validateVersionWrites writes readEpoch = .ok ()) :
    store.versionIndex.firstConflict writes readEpoch = none ∧
      store.validateBarrier writes readEpoch .database = .ok () ∧
      store.validateBarrier writes readEpoch .schema = .ok () := by
  unfold validateVersionWrites at h
  split at h
  · split_ifs at h
  rename_i hnone
  refine ⟨hnone, ?_⟩
  rcases hdatabase : store.validateBarrier writes readEpoch .database with e | ⟨⟩
  · rw [hdatabase] at h
    cases h
  · rw [hdatabase] at h
    exact ⟨rfl, h⟩

omit [CowPageWeight V] [TypeSizes] [Std.TransOrd V] in
lemma of_firstConflict_eq_none {index : VersionIndex V}
    (h : index.firstConflict writes readEpoch = none) (hkey : key ∈ writes.keys) :
    index.historyFloor ≤ readEpoch ∧ ∀ s, index.stamp key = some s → s.commitEpoch ≤ readEpoch := by
  have hne : writes.isEmpty = false := by
    rw [VersionWriteSet.isEmpty, isEmpty_eq_false_iff]
    exact ne_nil_of_mem (mem_map.1 hkey).choose_spec.1
  unfold VersionIndex.firstConflict at h
  split_ifs at h with hreclaimed
  refine ⟨by simpa [hne] using hreclaimed, fun s hs => ?_⟩
  have hnone := findSome?_eq_none_iff.1 h key hkey
  rw [hs, bind_some] at hnone
  split_ifs at hnone with hlt
  exact not_lt.1 hlt

lemma Tracks.le_of_validateVersionWrites (h : store.Tracks history reader)
    (hvalid : store.validateVersionWrites writes readEpoch = .ok ()) {record : CommitRecord V}
    (hrecord : record ∈ history) (hkey : key ∈ writes.keys) {written : VersionKey V}
    (hwritten : written ∈ record.keys) (hsummary : written.isReadSummaryKey = false)
    (hcovers : compare written key = .eq ∨ written = .database ∨ written = .schema) :
    record.epoch ≤ readEpoch := by
  by_contra hlt
  rw [not_le] at hlt
  obtain ⟨hconflict, hdatabase, hschema⟩ := of_validateVersionWrites hvalid
  obtain ⟨hfloor, hkeyStamp⟩ := of_firstConflict_eq_none hconflict hkey
  rcases h.index.covers record hrecord (hfloor.trans_lt hlt) written hwritten with
    ⟨s, hs, hepoch⟩ | ⟨hsum, -⟩
  · have hle : s.commitEpoch ≤ readEpoch := by
      rcases hcovers with heq | rfl | rfl
      · exact hkeyStamp s (stamp_congr h.index.wf heq ▸ hs)
      · exact stamp_le_of_validateBarrier hdatabase hs
      · exact stamp_le_of_validateBarrier hschema hs
    omega
  · rw [hsummary] at hsum
    cases hsum

end

end VersionStore

namespace VersionRun

variable {V : Type*} [Ord V] [Std.TransOrd V] [CowPageWeight V] [TypeSizes] {s : VersionRun V}

/-- The index tracks the history, whose keys are those of writers. -/
structure Sound (s : VersionRun V) : Prop where
  tracks : s.store.Tracks s.history none
  keys : ∀ r ∈ s.history, ∀ key ∈ r.keys, key.isReadSummaryKey = false

omit [CowPageWeight V] [TypeSizes] in
lemma announces_keys (request : CommitRequest V) :
    ∀ key ∈ request.writes.keys, VersionStore.Announces request key := by
  refine fun key hkey => .inl ?_
  obtain ⟨e, he, rfl⟩ := mem_map.1 hkey
  rw [OrdMap.get, isSome_map, findEntry_isSome_iff]
  exact ⟨e, he, Std.ReflCmp.compare_self⟩

lemma Sound.step (h : s.Sound) (event : VersionEvent V) : (s.step event).Sound := by
  cases event with
  | snapshot inherited =>
    refine ⟨h.tracks.with_pins (fun e he => ?_) nofun nofun, h.keys⟩
    rcases get_pin_isSome he with rfl | he
    · exact s.store.snapshotEpoch_le inherited
    · exact h.tracks.pins e he
  | dropSnapshot epoch =>
    exact ⟨h.tracks.with_pins
      (fun e he => h.tracks.pins e (get_unpin_isSome he))
      nofun nofun, h.keys⟩
  | commit env request =>
    have hcommit := h.tracks.commit env (announces_keys request)
    simp only [VersionRun.step]
    rcases hresult : s.store.commit env request with ⟨store, e | epoch⟩
    · rw [hresult] at hcommit
      exact ⟨hcommit.2, h.keys⟩
    rw [hresult] at hcommit
    refine ⟨hcommit.2.2.2, fun r hr => ?_⟩
    rcases mem_cons.1 hr with rfl | hr
    · exact request.writerKeys
    · exact h.keys r hr
  | finishNonRelationalCommit =>
    refine ⟨h.tracks.finishNonRelationalCommit, fun r hr => ?_⟩
    rcases mem_cons.1 hr with rfl | hr
    · exact fun key hkey => by rw [mem_singleton.1 hkey]; rfl
    · exact h.keys r hr
  | reclaimVersionHistory env => exact ⟨h.tracks.reclaimVersionHistory env, h.keys⟩
  | pruneBefore env oldestReaderEpoch =>
    simp only [VersionRun.step]
    split_ifs with hle
    · exact ⟨h.tracks.reclaims hle (pruneBefore_reclaims h.tracks.index.wf env _), h.keys⟩
    · exact h
  | pruneTombstonesBefore env oldestReaderEpoch =>
    simp only [VersionRun.step]
    split_ifs with hle
    · exact ⟨h.tracks.reclaims hle
        (pruneTombstonesBefore_reclaims h.tracks.index.wf env _), h.keys⟩
    · exact h

lemma Sound.foldl : ∀ (events : List (VersionEvent V)) {s : VersionRun V}, s.Sound →
    (events.foldl VersionRun.step s).Sound
  | [], _, h => h
  | event :: events, _, h => foldl events (h.step event)

lemma sound_run (epoch maxEstimatedBytes maxHistoryBytes : ℕ) (events : List (VersionEvent V)) :
    (run epoch maxEstimatedBytes maxHistoryBytes events).Sound :=
  Sound.foldl events ⟨tracks_new _ _ _, fun _ hr => absurd hr not_mem_nil⟩

/-- A transaction that is validated at its read epoch and commits has no commit after that epoch
that wrote one of its keys, the database or the schema. One that writes something and has read
before the reclaimed history is rejected. -/
theorem first_committer_wins (start maxEstimatedBytes maxHistoryBytes : ℕ)
    (events : List (VersionEvent V)) (env : CommitEnv) (request : CommitRequest V) (readEpoch : ℕ)
    (hread : request.mvccReadEpoch = some readEpoch) :
    let s := run start maxEstimatedBytes maxHistoryBytes events
    (∀ epoch, (s.store.commit env request).2 = .ok epoch →
      ∀ record ∈ s.history, readEpoch < record.epoch → ∀ key ∈ request.writes.keys,
        ∀ written ∈ record.keys,
          compare written key ≠ .eq ∧ written ≠ .database ∧ written ≠ .schema) ∧
      (readEpoch < s.store.versionIndex.historyFloor → request.writes.isEmpty = false →
        ∃ e, (s.store.commit env request).2 = .error e) := by
  intro s
  have hsound := sound_run start maxEstimatedBytes maxHistoryBytes events
  have hvalid : ∀ epoch, (s.store.commit env request).2 = .ok epoch →
      s.store.validateVersionWrites request.writes readEpoch = .ok () := by
    intro epoch hok
    have hcommit := hsound.tracks.commit env (announces_keys request)
    rcases hresult : s.store.commit env request with ⟨store, e | epoch'⟩
    · rw [hresult] at hok
      cases hok
    · rw [hresult] at hcommit
      simpa [validateCommit, hread] using hcommit.2.1
  refine ⟨fun epoch hok record hrecord hlt key hkey written hwritten => ?_, fun hlt hne => ?_⟩
  · have hle := hsound.tracks.le_of_validateVersionWrites (hvalid epoch hok) hrecord hkey hwritten
      (hsound.keys record hrecord written hwritten)
    refine ⟨fun heq => ?_, fun heq => ?_, fun heq => ?_⟩
    · exact hlt.not_ge (hle (.inl heq))
    · exact hlt.not_ge (hle (.inr (.inl heq)))
    · exact hlt.not_ge (hle (.inr (.inr heq)))
  · rcases hresult : (s.store.commit env request).2 with e | epoch
    · exact ⟨e, rfl⟩
    · obtain ⟨hconflict, -⟩ := of_validateVersionWrites (hvalid epoch hresult)
      obtain ⟨e, he⟩ := exists_mem_of_ne_nil _ (isEmpty_eq_false_iff.1 hne)
      have hfloor := (of_firstConflict_eq_none hconflict (mem_map.2 ⟨e, he, rfl⟩)).1
      exact absurd hlt hfloor.not_gt

omit [TypeSizes] in
theorem first_committer_wins_twoWriters :
    let _ : TypeSizes := ⟨136, 24, 24, 40, 56, 80, 16, 1, 32⟩
    let _ : CowPageWeight ℕ := ⟨fun _ => 8, fun _ => 0⟩
    let history : HistoryEnv := ⟨0, fun _ _ => true⟩
    let env : CommitEnv := ⟨history, history, history, history, .ok ()⟩
    let write (id : ℕ) : CommitRequest ℕ :=
      ⟨⟨empty.insert (.graphNode id) ⟨.live⟩, 8, 4096, 81⟩,
        fun key hkey => by rw [mem_singleton.1 hkey]; rfl, some [], some 0⟩
    let s := run 0 4096 4096 [.snapshot none, .snapshot none, .commit env (write 1)]
    (s.store.commit env (write 2)).2.toOption = some 2 ∧
      (∀ record ∈ s.history, 0 < record.epoch → ∀ written ∈ record.keys,
        compare written (.graphNode 2) ≠ .eq) ∧
      (s.store.commit env (write 1)).2.toOption = none := by
  intro sizes weight history env write s
  have hok : (s.store.commit env (write 2)).2.toOption = some 2 := by decide +kernel +revert
  refine ⟨hok, fun record hrecord hlt written hwritten => ?_, by decide +kernel +revert⟩
  exact ((first_committer_wins 0 4096 4096 _ env (write 2) 0 rfl).1 2 (toOption_eq_some_iff.1 hok)
    record hrecord hlt _ mem_cons_self written hwritten).1

end VersionRun

end HawDB
