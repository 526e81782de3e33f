import HawDB.Proofs.WalTail
import HawDB.WalRecovery

/-!
# Recovery keeps what is protected

Replay scans the log and applies what it scans, entry by entry in sequence (`replayLoop_scan`). The
doctor's loop goes the same way, so it stops at the same damage and keeps the same bytes
(`inspectLoop_of_replayLoop`), whatever their record limits (`nextEvent_unlimited`).
-/

namespace HawDB

open List

open BinaryWalReader

namespace BinaryWalReader

section

def unlimited (s : BinaryWalReader) : BinaryWalReader := { s with maxRecordBytes := none }

lemma ensureLoaded_unlimited (s : BinaryWalReader) :
    s.unlimited.ensureLoaded = s.ensureLoaded.unlimited := by
  unfold ensureLoaded
  by_cases h : (!s.blockLoaded || (decide (s.blockPos = s.block.length) && !s.streamEnded)) = true
  · rw [if_pos h]
    exact if_pos h
  · rw [if_neg h]
    exact if_neg h

variable [Checksum]

lemma liveFragmentAfter_unlimited (s : BinaryWalReader) :
    s.unlimited.liveFragmentAfter = s.liveFragmentAfter := by
  fun_induction liveFragmentAfter s with
  | case1 s hempty =>
    rw [liveFragmentAfter]
    exact if_pos hempty
  | case2 s hempty hlive =>
    rw [liveFragmentAfter]
    exact (if_neg hempty).trans (if_pos hlive)
  | case3 s hempty hlive hended =>
    rw [liveFragmentAfter]
    exact (if_neg hempty).trans ((if_neg hlive).trans (if_pos hended))
  | case4 s hempty hlive hended ih =>
    rw [liveFragmentAfter]
    exact (if_neg hempty).trans ((if_neg hlive).trans ((if_neg hended).trans ih))

lemma endOfLog_unlimited (s : BinaryWalReader) (offset : ℕ) (reason : String) :
    s.unlimited.endOfLog offset reason =
      ((s.endOfLog offset reason).1, (s.endOfLog offset reason).2.unlimited) := by
  unfold endOfLog
  rw [liveFragmentAfter_unlimited]
  split_ifs <;> rfl

omit [Checksum] in
lemma enforceRecordLimit_unlimited (s : BinaryWalReader) (n : ℕ) :
    s.unlimited.enforceRecordLimit n = .ok () := rfl

omit [Checksum] in
lemma takeFragment_unlimited {s next : BinaryWalReader} {hend : payloadEnd ≤ s.block.length}
    (h : s.takeFragment offset fragmentType payloadEnd hend = .ok (event, next)) :
    s.unlimited.takeFragment offset fragmentType payloadEnd hend = .ok (event, next.unlimited) := by
  have hmap : ∀ {n r},
      (s.enforceRecordLimit n).map (fun _ => r) = .ok (event, next) → r = (event, next) :=
    fun hlimit => (map_eq_ok.1 hlimit).elim fun _ hr => hr.2
  unfold takeFragment at h ⊢
  dsimp only at h ⊢
  simp only [enforceRecordLimit_unlimited]
  by_cases hfull : fragmentType = fragmentFull
  · rw [if_pos hfull] at h ⊢
    by_cases hchain : s.chain.isSome
    · rw [if_pos hchain] at h
      cases h
      exact if_pos hchain
    · rw [if_neg hchain] at h
      cases hmap h
      exact if_neg hchain
  rw [if_neg hfull] at h ⊢
  by_cases hfirst : fragmentType = fragmentFirst
  · rw [if_pos hfirst] at h ⊢
    by_cases hchain : s.chain.isSome
    · rw [if_pos hchain] at h
      cases h
      exact if_pos hchain
    · rw [if_neg hchain] at h
      cases hmap h
      exact if_neg hchain
  rw [if_neg hfirst] at h ⊢
  cases hchain : s.chain with
  | none =>
    rw [hchain] at h
    rw [show s.unlimited.chain = none from hchain]
    cases h
    rfl
  | some chain =>
    rw [hchain] at h
    rw [show s.unlimited.chain = some chain from hchain]
    obtain ⟨-, -, hnext⟩ := map_eq_ok.1 h
    split_ifs at hnext ⊢ <;> cases hnext <;> rfl

lemma nextEventLoop_fragment_of_eq {s loaded : BinaryWalReader}
    (hloaded : s.ensureLoaded = loaded)
    (h : loaded.parseFragment = .fragment fragmentType payloadEnd)
    {result : Option BinaryWalReadEvent × BinaryWalReader}
    (htake : loaded.takeFragment (s.blockOffset + s.blockPos) fragmentType payloadEnd
      (parseBlock_fragment h).2 = .ok result) :
    s.nextEventLoop = result.1.elim result.2.nextEventLoop fun event => .ok (event, result.2) := by
  subst hloaded
  rw [nextEventLoop_fragment h, htake]
  obtain ⟨_ | event, next⟩ := result <;> rfl

lemma nextEventLoop_unlimited {s next : BinaryWalReader}
    (h : s.nextEventLoop = .ok (event, next)) :
    s.unlimited.nextEventLoop = .ok (event, next.unlimited) := by
  have hparse : ∀ s : BinaryWalReader, s.unlimited.ensureLoaded.parseFragment =
      s.ensureLoaded.parseFragment := fun s => by
    rw [ensureLoaded_unlimited]
    rfl
  fun_induction nextEventLoop s with
  | case1 s hneed ih =>
    rw [nextEventLoop_eq ((hparse s).trans hneed)]
    dsimp only
    rw [ensureLoaded_unlimited]
    exact ih h
  | case2 s hend =>
    cases h
    rw [nextEventLoop_eq ((hparse s).trans hend)]
    dsimp only
    rw [ensureLoaded_unlimited]
    rfl
  | case3 s reason htorn =>
    cases h
    rw [nextEventLoop_eq ((hparse s).trans htorn)]
    dsimp only
    rw [ensureLoaded_unlimited]
    rfl
  | case4 s reason hcorrupt =>
    cases h
    rw [nextEventLoop_eq ((hparse s).trans hcorrupt)]
    dsimp only
    rw [ensureLoaded_unlimited]
    rfl
  | case5 s reason hend =>
    obtain ⟨rfl, rfl⟩ := Prod.mk.inj (Except.ok.inj h)
    rw [nextEventLoop_eq ((hparse s).trans hend)]
    dsimp only
    rw [ensureLoaded_unlimited, endOfLog_unlimited]
    rfl
  | case6 => cases h
  | case7 s fragmentType payloadEnd hfragment event' next' htake =>
    cases h
    exact nextEventLoop_fragment_of_eq (ensureLoaded_unlimited s) hfragment
      (takeFragment_unlimited htake)
  | case8 s fragmentType payloadEnd hfragment next' htake ih =>
    rw [nextEventLoop_fragment_of_eq (ensureLoaded_unlimited s) hfragment
      (takeFragment_unlimited htake)]
    exact ih h

lemma nextEvent_unlimited {s next : BinaryWalReader} (h : s.nextEvent = .ok (event, next)) :
    s.unlimited.nextEvent = .ok (event, next.unlimited) := by
  unfold nextEvent at h ⊢
  by_cases hfinished : s.finished
  · rw [if_pos hfinished] at h
    cases h
    exact if_pos hfinished
  · rw [if_neg hfinished] at h
    exact (if_neg hfinished).trans (nextEventLoop_unlimited h)

end

end BinaryWalReader

namespace RecoveryEnv

variable {Op σ : Type} [Checksum] {env : RecoveryEnv Op σ}

section

variable {s next : BinaryWalReader} {expectedLsn : ℕ}

/-- What is read at the end of a log or at a torn tail is what the reader gives. -/
theorem sequencedNext_stop (h : env.sequencedNext s expectedLsn = .ok (event, next)) :
    (event = .eof → s.nextEvent = .ok (.eof, next)) ∧
      ∀ v reason, event = .tornTail v reason → s.nextEvent = .ok (.tornTail v reason, next) := by
  obtain ⟨⟨event', next'⟩, hnext, hevent⟩ := map_eq_ok.1 h
  cases hevent
  unfold cursorNext at hnext
  split at hnext
  · cases hnext
  · split at hnext
    · cases hnext
    · cases hnext
      dsimp only [checkSequence]
      split_ifs <;> exact ⟨nofun, nofun⟩
    · cases hnext
      exact ⟨nofun, nofun⟩
  · rename_i hread
    cases hnext
    refine ⟨nofun, ?_⟩
    rintro v reason ⟨⟩
    exact hread
  · cases hnext
    exact ⟨nofun, nofun⟩
  · rename_i hread
    cases hnext
    exact ⟨fun _ => hread, nofun⟩

lemma cursorNext_unlimited (h : env.cursorNext s = .ok (event, next)) :
    env.cursorNext s.unlimited = .ok (event, next.unlimited) := by
  unfold cursorNext at h
  split at h
  · cases h
  · rename_i hread
    split at h
    · cases h
    all_goals
      rename_i hdecode
      cases h
      rw [cursorNext, nextEvent_unlimited hread]
      dsimp only
      rw [hdecode]
  all_goals
    rename_i hread
    cases h
    rw [cursorNext, nextEvent_unlimited hread]

lemma sequencedNext_unlimited (h : env.sequencedNext s expectedLsn = .ok (event, next)) :
    env.sequencedNext s.unlimited expectedLsn = .ok (event, next.unlimited) := by
  obtain ⟨⟨event', next'⟩, hnext, hevent⟩ := map_eq_ok.1 h
  cases hevent
  exact map_eq_ok.2 ⟨_, cursorNext_unlimited hnext, rfl⟩

lemma sequencedNext_agree {t next' : BinaryWalReader}
    (hsame : t.unlimited = s.unlimited) (hs : env.sequencedNext s expectedLsn = .ok (event, next))
    (ht : env.sequencedNext t expectedLsn = .ok (event', next')) :
    event' = event ∧ next'.unlimited = next.unlimited := by
  have heq := sequencedNext_unlimited ht
  rw [hsame, sequencedNext_unlimited hs] at heq
  obtain ⟨hevent, hnext⟩ := Prod.mk.inj (Except.ok.inj heq)
  exact ⟨hevent.symm, hnext.symm⟩

end

variable {st st' : ReplayState Op σ} {stop : ReplayStop}

section

variable {config : WalReplayConfig} {readOnly : Bool} {fence : Option WalRecoveryFence}
  {generation : UInt64} {startLsn : ℕ}

/-- The records that replay has read are its entries, with consecutive sequence numbers. -/
structure Replayed (env : RecoveryEnv Op σ) (startLsn : ℕ) (records : List WalRecord)
    (st : ReplayState Op σ) : Prop where
  decodes : Forall₂ (fun record entry =>
    env.decodeBinaryWalRecord record.payload = .ok (.entry entry)) records st.replayed
  lsns : st.replayed.map WalEntry.lsn = range' startLsn st.replayed.length
  expectedLsn_eq : st.expectedLsn = startLsn + st.replayed.length

omit [Checksum] in
lemma replayEntry_eq_ok (h : env.replayEntry config st entry startOffset len payload = .ok st') :
    st'.validEnd = startOffset + len ∧ st'.expectedLsn = st.expectedLsn + 1 ∧
      st'.replayed = st.replayed ++ [entry] := by
  unfold replayEntry at h
  split_ifs at h
  simp only [bind_eq_ok] at h
  obtain ⟨store, -, h⟩ := h
  split at h
  · cases h
  rename_i expectedLsn hsucc
  obtain ⟨store', -, h⟩ := bind_eq_ok.1 h
  cases h
  unfold checkedSucc at hsucc
  split_ifs at hsucc
  exact ⟨rfl, (Option.some.inj hsucc).symm, rfl⟩

omit [Checksum] in
lemma Replayed.append {record : WalRecord} {entry : WalEntry Op}
    (h : Replayed env startLsn records st)
    (hdecode : env.decodeBinaryWalRecord record.payload = .ok (.entry entry))
    (hlsn : entry.lsn = st.expectedLsn) (hexpected : st'.expectedLsn = st.expectedLsn + 1)
    (hreplayed : st'.replayed = st.replayed ++ [entry]) :
    Replayed env startLsn (records ++ [record]) st' := by
  refine ⟨?_, ?_, ?_⟩
  · rw [hreplayed]
    exact rel_append h.decodes (.cons hdecode .nil)
  · rw [hreplayed, map_append, h.lsns, length_append, length_singleton,
      range'_concat, map_singleton, hlsn, h.expectedLsn_eq, Nat.one_mul]
  · rw [hexpected, hreplayed, h.expectedLsn_eq, length_append, length_singleton, Nat.add_assoc]

lemma replayLoop_scan (hloop : env.replayLoop config readOnly fence s st = .ok (stop, st')) :
    ∀ {pos records}, Represents generation config.maxRecordBytes data s pos none →
      Scan generation config.maxRecordBytes data 0 none records pos none →
      st.validEnd = fileOffset pos → Replayed env startLsn records st →
      ∃ records' p, Replayed env startLsn records' st' ∧
        Scan generation config.maxRecordBytes data 0 none records' p none ∧
        (stop = .eof ∧ ScanStop generation data p none .eof ∨
          ∃ reason, stop = .tail (fileOffset p) reason) := by
  fun_induction replayLoop env config readOnly fence s st with
  | case1 => cases hloop
  | case2 s st next hnext =>
    intro pos records hs hscan hvalid hst
    cases hloop
    rcases hs.of_nextEvent ((sequencedNext_stop hnext).1 rfl) with
      ⟨_, _, hevent, -⟩ | ⟨p, chain, hrest, hstop⟩ | ⟨_, _, hevent⟩
    · cases hevent
    · have hscan' := hscan.trans hrest
      rw [append_nil] at hscan'
      cases hstop with
      | eof hend => exact ⟨records, p, hst, hscan', .inl ⟨rfl, .eof hend⟩⟩
    · cases hevent
  | case3 s st automatic v reason next hnext hauto =>
    intro pos records hs hscan hvalid hst
    cases hloop
    rcases hs.of_nextEvent ((sequencedNext_stop hnext).2 _ _ rfl) with
      ⟨_, _, hevent, -⟩ | ⟨p, chain, hrest, hstop⟩ | ⟨_, _, hevent⟩
    · cases hevent
    · obtain ⟨q, rfl, hq⟩ := hstop.scan_valid hrest
      have hscan' := hscan.trans hq
      rw [append_nil] at hscan'
      exact ⟨records, q, hst, hscan', .inr ⟨reason, rfl⟩⟩
    · cases hevent
  | case4 => cases hloop
  | case5 s st automatic offset reason next hnext hauto =>
    intro pos records hs hscan hvalid hst
    cases hloop
    exact ⟨records, pos, hst, hscan, .inr ⟨reason, by rw [hvalid]⟩⟩
  | case6 => cases hloop
  | case7 => cases hloop
  | case8 s st entry startOffset len payload next hnext st₁ hentry ih =>
    intro pos records hs hscan hvalid hst
    obtain ⟨hlsn, hcursor⟩ := sequencedNext_eq_entry.1 hnext
    obtain ⟨hdecode, endOffset, hread, hlen⟩ := cursorNext_eq_entry.1 hcursor
    obtain ⟨hvalid', hexpected, hreplayed⟩ := replayEntry_eq_ok hentry
    rcases hs.of_nextEvent hread with
      ⟨record, pos', hevent, hend, hrecord, hnext'⟩ | ⟨p, chain, hrest, hstop⟩ | ⟨_, _, hevent⟩
    · obtain ⟨rfl, rfl, rfl⟩ := BinaryWalReadEvent.record.inj hevent
      have hbounds := hrecord.bounds nofun record (mem_singleton_self _)
      refine ih hloop hnext' (hscan.trans hrecord) ?_ (hst.append hdecode hlsn hexpected hreplayed)
      rw [hvalid', hlen, Nat.add_sub_cancel' hbounds.2.1.le, hend]
    · cases hstop
    · cases hevent

end

variable {v : ℕ}

section

variable {options : WalDoctorOptions} {fence : Option WalRecoveryFence}

/-- What the doctor's loop does with the next event. -/
def InspectNext (env : RecoveryEnv Op σ) (options : WalDoctorOptions)
    (fence : Option WalRecoveryFence) (validEnd expectedLsn : ℕ) (stop : InspectStop)
    (next : BinaryWalReader) : WalCursorEvent Op → Prop
  | .eof => stop = .eof expectedLsn
  | .tornTail v _ => stop = .damage v expectedLsn .incompleteFinalRecord
  | .corrupt _ _ => stop = .damage validEnd expectedLsn .unsynchronizedSuffix
  | .entry _ startOffset len _ => ∃ epoch,
    env.inspectLoop options fence next (startOffset + len) (expectedLsn + 1) epoch = .ok stop

lemma inspectLoop_eq_ok {stop : InspectStop}
    (h : env.inspectLoop options fence t validEnd expectedLsn epoch = .ok stop) :
    ∃ event next, env.sequencedNext t expectedLsn = .ok (event, next) ∧
      InspectNext env options fence validEnd expectedLsn stop next event := by
  rw [inspectLoop] at h
  split at h
  · cases h
  · rename_i heq
    cases h
    exact ⟨_, _, heq, rfl⟩
  · rename_i heq
    cases h
    exact ⟨_, _, heq, rfl⟩
  · rename_i heq
    split_ifs at h
    cases h
    exact ⟨_, _, heq, rfl⟩
  · rename_i heq
    refine ⟨_, _, heq, ?_⟩
    split at h
    · cases h
    rename_i epoch' _
    split at h
    · cases h
    split at h
    · cases h
    rename_i hsucc
    unfold checkedSucc at hsucc
    split_ifs at hsucc
    cases hsucc
    exact ⟨epoch', h⟩

lemma inspectLoop_of_replayLoop {s : BinaryWalReader}
    (hloop : env.replayLoop config readOnly fence s st = .ok (.tail v why, st')) :
    ∀ {t epoch stop}, t.unlimited = s.unlimited →
      env.inspectLoop options fence t st.validEnd st.expectedLsn epoch = .ok stop →
      ∃ reason, stop = .damage v st'.expectedLsn reason := by
  fun_induction replayLoop env config readOnly fence s st with
  | case1 | case2 | case4 | case6 | case7 => cases hloop
  | case3 s st automatic v reason next hnext hauto
  | case5 s st automatic offset reason next hnext hauto =>
    intro t epoch stop hsame hinspect
    cases hloop
    obtain ⟨event, next', hnext', hevent⟩ := inspectLoop_eq_ok hinspect
    obtain ⟨rfl, -⟩ := sequencedNext_agree hsame hnext hnext'
    exact ⟨_, hevent⟩
  | case8 s st entry startOffset len payload next hnext st₁ hentry ih =>
    intro t epoch stop hsame hinspect
    obtain ⟨event, next', hnext', hevent⟩ := inspectLoop_eq_ok hinspect
    obtain ⟨rfl, hsame'⟩ := sequencedNext_agree hsame hnext hnext'
    obtain ⟨epoch', hrest⟩ := hevent
    obtain ⟨hvalid, hexpected, -⟩ := replayEntry_eq_ok hentry
    rw [← hvalid, ← hexpected] at hrest
    exact ih hloop hsame' hrest

end

section

variable {wal : Bytes} {generation : UInt64} {startLsn : ℕ}

lemma openGeneration_eq_ok {torn corrupt : String → HawDBError}
    (h : openGeneration wal limit generation startLsn torn corrupt = .ok reader) :
    walBinaryFileHeaderBytes ≤ wal.length ∧
      decodeBinaryWalHeader (wal.take walBinaryFileHeaderBytes) = .ok (generation, startLsn) ∧
      reader = openFile wal generation limit := by
  unfold openGeneration openWal at h
  by_cases hshort : wal.length < walBinaryFileHeaderBytes
  · split_ifs at h
  have hempty : wal.length ≠ 0 := by
    rintro hzero
    rw [hzero] at hshort
    exact hshort (by decide)
  rw [if_neg hempty, if_neg hshort] at h
  cases hheader : decodeBinaryWalHeader (wal.take walBinaryFileHeaderBytes) with
  | error message =>
    rw [hheader] at h
    cases h
  | ok header =>
    obtain ⟨generation', startLsn'⟩ := header
    rw [hheader] at h
    dsimp only at h
    split_ifs at h with hmatch
    rw [not_or, not_not, not_not] at hmatch
    obtain ⟨rfl, rfl⟩ := hmatch
    exact ⟨not_lt.1 hshort, rfl, (Except.ok.inj h).symm⟩

variable [Digest] {dir : WalDirectory}

lemma replayStop_eq_ok {config : WalReplayConfig}
    (h : env.replayStop config readOnly generation startLsn dir store = .ok (fence, stop, st)) :
    walBinaryFileHeaderBytes ≤ dir.wal.length ∧
      decodeBinaryWalHeader (dir.wal.take walBinaryFileHeaderBytes) = .ok (generation, startLsn) ∧
      WalRecoveryFence.load dir.fence generation startLsn = .ok fence ∧
      env.replayLoop config readOnly fence (openFile dir.wal generation config.maxRecordBytes)
        ⟨walBinaryFileHeaderBytes, startLsn, [], store⟩ = .ok (stop, st) := by
  unfold replayStop at h
  split_ifs at h
  simp only [bind_eq_ok] at h
  obtain ⟨reader, hopen, fence', hfence, ⟨stop', st'⟩, hloop, h⟩ := h
  obtain ⟨rfl, hrest⟩ := Prod.mk.inj (Except.ok.inj h)
  cases hrest
  obtain ⟨hlength, hheader, rfl⟩ := openGeneration_eq_ok hopen
  exact ⟨hlength, hheader, hfence, hloop⟩

lemma inspectStop_eq_ok {options : WalDoctorOptions} {boundary : WalRepairBoundary}
    {stop : InspectStop} (h : env.inspectStop options dir = .ok (boundary, fence, stop)) :
    decodeBinaryWalHeader (dir.wal.take walBinaryFileHeaderBytes) =
        .ok (boundary.walGeneration, boundary.walReplayStartLsn) ∧
      WalRecoveryFence.load dir.fence boundary.walGeneration boundary.walReplayStartLsn =
        .ok fence ∧
      env.inspectLoop options fence
        (openFile dir.wal boundary.walGeneration options.maxRecordBytes) walBinaryFileHeaderBytes
        boundary.walReplayStartLsn boundary.commitEpoch = .ok stop := by
  obtain ⟨boundary', -, h⟩ := bind_eq_ok.1 h
  split_ifs at h
  simp only [bind_eq_ok] at h
  obtain ⟨reader, hopen, fence', hfence, stop', hloop, h⟩ := h
  obtain ⟨rfl, hrest⟩ := Prod.mk.inj (Except.ok.inj h)
  cases hrest
  obtain ⟨-, hheader, rfl⟩ := openGeneration_eq_ok hopen
  exact ⟨hheader, hfence, hloop⟩

lemma inspectStop_of_replayStop {stop : InspectStop}
    (hreplay : env.replayStop config readOnly generation startLsn dir store =
      .ok (fence, .tail v why, st))
    (hinspect : env.inspectStop options dir = .ok (boundary, fence', stop)) :
    ∃ reason, stop = .damage v st.expectedLsn reason := by
  obtain ⟨-, hheader, hfence, hloop⟩ := replayStop_eq_ok hreplay
  obtain ⟨hheader', hfence', hloop'⟩ := inspectStop_eq_ok hinspect
  rw [hheader] at hheader'
  cases hheader'
  rw [hfence] at hfence'
  cases hfence'
  have hsame : (openFile dir.wal boundary.walGeneration options.maxRecordBytes).unlimited =
    (openFile dir.wal boundary.walGeneration config.maxRecordBytes).unlimited := rfl
  exact inspectLoop_of_replayLoop hloop hsame hloop'

variable {plan : WalTailRepairPlan}

/-- A plan made at a damage keeps what the doctor's loop kept. -/
theorem inspectWalTail_of_damage
    (hstop : ∀ boundary fence stop, env.inspectStop options dir = .ok (boundary, fence, stop) →
      ∃ reason, stop = .damage retained nextLsn reason)
    (h : env.inspectWalTail options dir = .ok plan) :
    retained ≤ dir.wal.length ∧ plan.retainedWal.length = retained ∧
      plan.nextLsnAfterRepair = nextLsn := by
  obtain ⟨⟨boundary, fence, stop⟩, hinspect, h⟩ := bind_eq_ok.1 h
  obtain ⟨reason, rfl⟩ := hstop boundary fence stop hinspect
  dsimp only at h
  split_ifs at h
  simp only [bind_eq_ok] at h
  obtain ⟨-, -, plan', hplan, pending, -, h⟩ := h
  have hsame : plan' = plan := by
    split at h
    · exact Except.ok.inj h
    · split_ifs at h
      exact Except.ok.inj h
  subst hsame
  unfold buildPlan at hplan
  split_ifs at hplan with hlength
  cases hplan
  refine ⟨not_lt.1 hlength, ?_, rfl⟩
  exact length_take_of_le (not_lt.1 hlength)

variable {dir' : WalDirectory}

omit [Checksum] in
lemma protectRepairedPrefix_wal (h : protectRepairedPrefix dir plan = .ok dir') :
    dir'.wal = dir.wal := by
  obtain ⟨fence, -, h⟩ := bind_eq_ok.1 h
  split at h
  · cases h
    rfl
  · obtain ⟨-, -, h⟩ := bind_eq_ok.1 h
    dsimp only at h
    split_ifs at h <;> cases h <;> rfl

omit [Checksum] in
lemma finalizeRepair_eq_ok {report : WalTailRepairReport}
    (h : env.finalizeRepair dir plan resumed = .ok (dir', report)) :
    dir'.wal = dir.wal ∧ report.retainedWalLen = plan.retainedWal.length := by
  unfold finalizeRepair at h
  simp only [bind_eq_ok] at h
  obtain ⟨-, -, moved, hprotect, -, -, h⟩ := h
  cases h
  have hwal := protectRepairedPrefix_wal hprotect
  exact ⟨hwal, rfl⟩

/-- A log of which some bytes are kept. -/
def KeepsPrefix (dir dir' : WalDirectory) (report : WalTailRepairReport)
    (plan : WalTailRepairPlan) : Prop :=
  report.retainedWalLen = plan.retainedWal.length ∧
    dir'.wal = dir.wal.take report.retainedWalLen ∧ dir'.wal.length = report.retainedWalLen

lemma resumeRepair_eq_ok (hretained : fileIdentity dir.wal = plan.retainedWal)
    (h : env.resumeRepair options dir plan pending = .ok (dir', report)) :
    KeepsPrefix dir dir' report plan := by
  cases pending with
  | none => cases h
  | some pending =>
    dsimp only [resumeRepair] at h
    split_ifs at h with hpending
    obtain ⟨-, -, hfinal⟩ := bind_eq_ok.1 h
    rw [not_not.1 hpending] at hfinal
    obtain ⟨hwal, hreport⟩ := finalizeRepair_eq_ok hfinal
    have hlength : dir.wal.length = report.retainedWalLen := by
      rw [hreport, ← hretained]
      rfl
    exact ⟨hreport, by rw [hwal, ← hlength, take_length], by rw [hwal, hlength]⟩

lemma truncateWal_eq_ok
    (h : env.truncateWal dir plan = .ok (dir', report)) : KeepsPrefix dir dir' report plan := by
  unfold truncateWal at h
  simp only [bind_eq_ok] at h
  obtain ⟨-, -, -, -, moved, hprotect, -, -, hrest⟩ := h
  split_ifs at hrest with hidentity
  obtain ⟨hwal, hreport⟩ := finalizeRepair_eq_ok hrest
  rw [protectRepairedPrefix_wal hprotect] at hwal hidentity
  have hlength : (dir.wal.take plan.retainedWal.length).length = plan.retainedWal.length :=
    congrArg FileIdentity.length (not_not.1 hidentity)
  exact ⟨hreport, by rw [hwal, hreport], by rw [hwal, hreport, hlength]⟩

lemma applyWalTailRepair_eq_ok
    (h : env.applyWalTailRepair options dir plan = .ok (dir', report)) :
    KeepsPrefix dir dir' report plan := by
  unfold applyWalTailRepair at h
  split at h
  · cases h
  obtain ⟨boundary, -, hboundary⟩ := bind_eq_ok.1 h
  split at hboundary
  · cases hboundary
  simp only [bind_eq_ok] at hboundary
  obtain ⟨-, -, pending, -, happly⟩ := hboundary
  split at happly
  · rename_i hretained
    exact resumeRepair_eq_ok hretained happly
  split at happly
  · cases happly
  obtain ⟨plan', -, hplan⟩ := bind_eq_ok.1 happly
  split at hplan
  · cases hplan
  simp only [bind_eq_ok] at hplan
  obtain ⟨-, -, -, -, htruncate⟩ := hplan
  exact truncateWal_eq_ok htruncate

lemma automaticWalTailRepair_eq_ok
    (h : env.automaticWalTailRepair config dir = .ok (dir', report)) :
    ∃ options plan, env.inspectWalTail options dir = .ok plan ∧
      KeepsPrefix dir dir' report plan := by
  obtain ⟨plan, hplan, hrest⟩ := bind_eq_ok.1 h
  split at hrest
  · cases hrest
  obtain ⟨-, -, happly⟩ := bind_eq_ok.1 hrest
  exact ⟨_, plan, hplan, applyWalTailRepair_eq_ok happly⟩

lemma resumeRepairs_eq_ok (h : env.resumeRepairs config readOnly dir₀ = .ok (dir, tailRepair)) :
    ∀ report, tailRepair = some report → dir.wal.length = report.retainedWalLen := by
  unfold resumeRepairs resumeAutomaticWalTailRepair at h
  split_ifs at h
  · cases h
    exact nofun
  · obtain ⟨⟨dir', report⟩, hrepair, hdir⟩ := map_eq_ok.1 h
    cases hdir
    rintro _ ⟨⟩
    obtain ⟨_, _, -, -, -, hlength⟩ := automaticWalTailRepair_eq_ok hrepair
    exact hlength
  · cases h
    exact nofun

end

section

lemma readEntries_of_readAll (hdecodes : Forall₂ (fun record entry =>
      env.decodeBinaryWalRecord record.payload = .ok (.entry entry)) records entries) :
    ∀ {s}, s.readAll = .ok (records, .eof) → env.readEntries s = .ok (entries, .eof) := by
  induction hdecodes with
  | nil =>
    intro s hread
    obtain ⟨next, hnext⟩ := readAll_eq_nil hread
    have hcursor : env.cursorNext s = .ok (.eof, next) := by
      rw [cursorNext, hnext]
    rw [readEntries]
    split
    all_goals
      rename_i heq
      cases heq.symm.trans hcursor
    rfl
  | @cons record entry records entries hdecode _ ih =>
    intro s hread
    obtain ⟨next, hnext, hrest⟩ := readAll_eq_cons hread
    have hcursor := cursorNext_eq_entry.2 ⟨hdecode, _, hnext, rfl⟩
    rw [readEntries]
    split
    · rename_i heq
      cases heq.symm.trans hcursor
    · rename_i heq
      cases heq.symm.trans hcursor
      rw [ih hrest]
      rfl
    · rename_i hne heq
      cases heq.symm.trans hcursor
      exact (hne _ _ _ _ rfl).elim

end

omit [Checksum] in
lemma validateFence_eq_ok {fence : WalRecoveryFence}
    (h : validateFence (some fence) bytes nextLsn = .ok ()) :
    fence.protectedBytes ≤ bytes ∧ fence.nextLsn ≤ nextLsn := by
  unfold validateFence WalRecoveryFence.validateRetained at h
  dsimp only at h
  split_ifs at h with hfence
  rwa [not_or, not_lt, not_lt] at hfence

lemma openWal_take {wal : Bytes} {generation : UInt64}
    (hlength : walBinaryFileHeaderBytes ≤ v) (hwal : v ≤ wal.length)
    (hheader : decodeBinaryWalHeader (wal.take walBinaryFileHeaderBytes) =
      .ok (generation, startLsn)) :
    openWal (wal.take v) limit =
      .cursor generation startLsn (openFile (wal.take v) generation limit) := by
  have htake : (wal.take v).length = v := length_take_of_le hwal
  have hpos : 0 < walBinaryFileHeaderBytes := by decide
  unfold openWal
  rw [htake, if_neg (by omega), if_neg (by omega), take_take, Nat.min_eq_left hlength, hheader]

section

variable [Digest] {config : WalReplayConfig} {readOnly : Bool} {generation : UInt64}
  {startLsn : ℕ} {dir : WalDirectory} {tailRepair : Option WalTailRepairReport} {store : σ}
  {report : WalReplayReport Op σ}

lemma replayStop_readAll
    (h : env.replayStop config readOnly generation startLsn dir store = .ok (fence, stop, st)) :
    ∃ records, Replayed env startLsn records st ∧
      (stop = .eof ∧ (openFile dir.wal generation config.maxRecordBytes).readAll =
          .ok (records, .eof) ∨ ∃ v reason, stop = .tail v reason ∧ walBinaryFileHeaderBytes ≤ v ∧
          (v ≤ dir.wal.length → (openFile (dir.wal.take v) generation
            config.maxRecordBytes).readAll = .ok (records, .eof))) := by
  obtain ⟨-, -, -, hloop⟩ := replayStop_eq_ok h
  have hopen := represents_openFile dir.wal generation config.maxRecordBytes
  obtain ⟨records, p, hst, hscan, ⟨rfl, hstop⟩ | ⟨reason, rfl⟩⟩ :=
    replayLoop_scan hloop hopen (.refl _ _) rfl ⟨.nil, rfl, rfl⟩
  · exact ⟨records, hst, .inl ⟨rfl, hopen.readAll_eq hscan hstop⟩⟩
  · exact ⟨records, hst, .inr ⟨_, reason, rfl, Nat.le_add_right _ _,
      fun hle => (readAll_truncated dir.wal hle hscan).1⟩⟩

lemma replayWal_eq_ok
    (htail : ∀ report, tailRepair = some report → dir.wal.length = report.retainedWalLen)
    (h : env.replayWal config readOnly generation startLsn dir tailRepair store = .ok report) :
    ∃ fence stop st, env.replayStop config readOnly generation startLsn dir store =
        .ok (fence, stop, st) ∧
      report.replayed = st.replayed ∧ report.nextLsnAfterReplay = st.expectedLsn ∧
      validateFence fence report.retainedWalLen st.expectedLsn = .ok () ∧
      report.directory.wal = dir.wal.take report.retainedWalLen ∧
      report.retainedWalLen ≤ dir.wal.length ∧
      (stop = .eof → report.retainedWalLen = dir.wal.length) ∧
      ∀ v reason, stop = .tail v reason → report.retainedWalLen = v := by
  unfold replayWal at h
  simp only [bind_eq_ok] at h
  obtain ⟨⟨fence, stop, st⟩, hstop, ⟨directory, repair⟩, hrepair, ⟨⟩, hfence, hreport⟩ := h
  cases hreport
  refine ⟨fence, stop, st, hstop, rfl, rfl, hfence, ?_⟩
  cases stop with
  | eof =>
    cases hrepair
    have hlength : tailRepair.elim dir.wal.length WalTailRepairReport.retainedWalLen =
        dir.wal.length := by
      cases tailRepair with
      | none => rfl
      | some report => exact (htail report rfl).symm
    rw [hlength, take_length]
    exact ⟨rfl, le_rfl, fun _ => rfl, fun _ _ h => by cases h⟩
  | tail v reason =>
    obtain ⟨⟨dir', report'⟩, hautomatic, hdir⟩ := map_eq_ok.1 hrepair
    cases hdir
    obtain ⟨options, plan, hplan, hreport, hwal, hlength⟩ := automaticWalTailRepair_eq_ok hautomatic
    obtain ⟨hle, hretained, -⟩ := inspectWalTail_of_damage
      (fun _ _ _ hinspect => inspectStop_of_replayStop hstop hinspect) hplan
    dsimp only [Option.elim_some]
    rw [hretained] at hreport
    refine ⟨hwal, by rwa [hreport], by simp, ?_⟩
    rintro v' reason' ⟨⟩
    exact hreport

/-- Recovery of a fenced log drops nothing that is protected, and what it keeps reads as what it
has replayed. Replay and the doctor, where they find the tail damaged, keep the same bytes and go on
with the same sequence number. -/
theorem fenced_recovery_keeps_protected (env : RecoveryEnv Op σ) (config : WalReplayConfig)
    (readOnly : Bool) (generation : UInt64) (startLsn : ℕ) (store : σ) :
    (∀ dir₀ dir tailRepair report fence,
      env.resumeRepairs config readOnly dir₀ = .ok (dir, tailRepair) →
      env.replayWal config readOnly generation startLsn dir tailRepair store = .ok report →
      WalRecoveryFence.load dir.fence generation startLsn = .ok (some fence) →
      fence.protectedBytes ≤ report.retainedWalLen ∧
      fence.nextLsn ≤ report.nextLsnAfterReplay ∧
      report.replayed.map WalEntry.lsn = List.range' startLsn report.replayed.length ∧
      report.nextLsnAfterReplay = startLsn + report.replayed.length ∧
      report.directory.wal = dir.wal.take report.retainedWalLen ∧
      report.directory.wal.length = report.retainedWalLen ∧
      ∃ reader, openWal report.directory.wal config.maxRecordBytes =
          .cursor generation startLsn reader ∧
        env.readEntries reader = .ok (report.replayed, .eof)) ∧
    ∀ dir fence v why st options plan,
      env.replayStop config readOnly generation startLsn dir store = .ok (fence, .tail v why, st) →
      env.inspectWalTail options dir = .ok plan →
      plan.retainedWal.length = v ∧ plan.nextLsnAfterRepair = st.expectedLsn := by
  constructor
  · intro dir₀ dir tailRepair report fence hresume hreplay hload
    obtain ⟨fence', stop, st, hstop, hreplayed, hnext, hfence, hwal, hle, heof, htail⟩ :=
      replayWal_eq_ok (resumeRepairs_eq_ok hresume) hreplay
    obtain ⟨hheader, hdecode, hload', -⟩ := replayStop_eq_ok hstop
    rw [hload] at hload'
    cases hload'
    obtain ⟨hbytes, hlsn⟩ := validateFence_eq_ok hfence
    obtain ⟨records, hst, hread⟩ := replayStop_readAll hstop
    have hkept : walBinaryFileHeaderBytes ≤ report.retainedWalLen ∧
        (openFile (dir.wal.take report.retainedWalLen) generation config.maxRecordBytes).readAll =
          .ok (records, .eof) := by
      rcases hread with ⟨rfl, hread⟩ | ⟨v, reason, rfl, hv, hread⟩
      · rw [heof rfl, take_length]
        exact ⟨hheader, hread⟩
      · rw [htail v reason rfl] at hle ⊢
        exact ⟨hv, hread hle⟩
    rw [hwal, hnext, hreplayed]
    refine ⟨hbytes, hlsn, hst.lsns, hst.expectedLsn_eq, rfl, length_take_of_le hle, _,
      openWal_take hkept.1 hle hdecode, readEntries_of_readAll hst.decodes hkept.2⟩
  · intro dir fence v why st options plan hreplay hplan
    exact (inspectWalTail_of_damage
      (fun _ _ _ hinspect => inspectStop_of_replayStop hreplay hinspect) hplan).2

end

end RecoveryEnv

end HawDB
