import HawDB.WalFrame

/-!
# Recovery of the write-ahead log

`replayLoop` applies the entries of a log in the order of their sequence numbers; `inspectLoop`, the
doctor's, plans what to keep of a log whose tail is damaged. A fence says how much has been
synchronized: a suffix behind it may be cut off, anything before it may not.

What the entries mean, the audit files and the file system are parameters (`RecoveryEnv`).
-/

namespace HawDB

/-- `sha256`; only its length matters. -/
class Digest where
  sha256 : Bytes → Bytes
  length_sha256 : ∀ bytes, (sha256 bytes).length = 32

section

variable [Checksum]

/-- `SKWALB01`. -/
def walBinaryMagic : Bytes := [0x53, 0x4b, 0x57, 0x41, 0x4c, 0x42, 0x30, 0x31]

/-- `decode_binary_wal_header`: the generation and the first sequence number; the errors are all
`Storage`. -/
def decodeBinaryWalHeader (bytes : Bytes) : Except String (UInt64 × ℕ) :=
  if bytes.length < walBinaryFileHeaderBytes then .error "binary WAL file header is truncated"
  else
    let header := bytes.take walBinaryFileHeaderBytes
    if header.take 8 ≠ walBinaryMagic then
      .error "WAL is missing a supported generation header"
    else
      let expected := leNat ((header.drop 24).take 4)
      let actual := (Checksum.crc32c (header.take 24)).toNat
      if expected ≠ actual then
        .error s!"WAL header checksum mismatch: expected {expected}, got {actual}"
      else
        .ok (UInt64.ofNat (leNat ((header.drop 8).take 8)), leNat ((header.drop 16).take 8))

inductive WalOpenOutcome where
  | cursor (generation : UInt64) (startLsn : ℕ) (reader : BinaryWalReader)
  | missingHeader
  | headerTorn (reason : String)
  | headerCorrupt (reason : String)

/-- `WalRecordCursor::open`. -/
def openWal (file : Bytes) (maxRecordBytes : Option ℕ) : WalOpenOutcome :=
  if file.length = 0 then .missingHeader
  else if file.length < walBinaryFileHeaderBytes then
    .headerTorn "binary WAL file header is truncated"
  else
    match decodeBinaryWalHeader (file.take walBinaryFileHeaderBytes) with
    | .error message => .headerCorrupt s!"storage error: {message}"
    | .ok (generation, startLsn) =>
      .cursor generation startLsn (.openFile file generation maxRecordBytes)

end

/-- The bytes and the sequence number up to which a log has been synchronized. -/
structure WalRecoveryFence where
  generation : UInt64
  startLsn : ℕ
  protectedBytes : ℕ
  nextLsn : ℕ
deriving DecidableEq, Repr

namespace WalRecoveryFence

/-- `HAWFENC1`. -/
def magic : Bytes := [0x48, 0x41, 0x57, 0x46, 0x45, 0x4e, 0x43, 0x31]

def encodedLen : ℕ := 72

def invalidFence : HawDBError :=
  .storageIntegrity "invalid or mismatched WAL synchronization fence; retain recovery evidence"

variable [Digest]

/-- What `publish` writes. -/
def encode (fence : WalRecoveryFence) : Bytes :=
  let bytes := magic ++ leBytes 8 fence.generation.toNat ++ leBytes 8 fence.startLsn ++
    leBytes 8 fence.protectedBytes ++ leBytes 8 fence.nextLsn
  bytes ++ Digest.sha256 bytes

/-- `load`, from the content of the fence file if there is one. -/
def load (file : Option Bytes) (generation : UInt64) (startLsn : ℕ) :
    Except HawDBError (Option WalRecoveryFence) :=
  match file with
  | none => .ok none
  | some bytes =>
    if bytes.length ≠ encodedLen then .error invalidFence
    else if bytes.take 8 ≠ magic ∨ Digest.sha256 (bytes.take 40) ≠ bytes.drop 40 then
      .error invalidFence
    else
      let field offset := leNat ((bytes.drop offset).take 8)
      let fence : WalRecoveryFence := ⟨UInt64.ofNat (field 8), field 16, field 24, field 32⟩
      if fence.generation ≠ generation ∨ fence.startLsn ≠ startLsn ∨
          fence.protectedBytes < walBinaryFileHeaderBytes ∨ fence.nextLsn < startLsn then
        .error invalidFence
      else .ok (some fence)

omit [Digest] in
def validateRetained (fence : WalRecoveryFence) (bytes nextLsn : ℕ) : Except HawDBError Unit :=
  if bytes < fence.protectedBytes ∨ nextLsn < fence.nextLsn then
    .error (.storageIntegrity "WAL damage intersects a protected synchronization prefix")
  else .ok ()

end WalRecoveryFence

/-- A fence that is there lets a suffix go. -/
def fenceAllows (fence : Option WalRecoveryFence) (bytes nextLsn : ℕ) : Bool :=
  fence.any fun fence => (fence.validateRetained bytes nextLsn).toOption.isSome

def validateFence (fence : Option WalRecoveryFence) (bytes nextLsn : ℕ) : Except HawDBError Unit :=
  match fence with
  | none => .ok ()
  | some fence => fence.validateRetained bytes nextLsn

/-- `checked_add(1)` of a `u64`. -/
def checkedSucc (n : ℕ) : Option ℕ := if n + 1 < 2 ^ 64 then some (n + 1) else none

structure WalEntry (Op : Type) where
  lsn : ℕ
  op : Op

inductive BinaryWalRecordDecode (Op : Type) where
  | entry (entry : WalEntry Op)
  | corrupt (reason : String)

/-- An event of `WalRecordCursor::next`. The length and the digest of a payload are given by the
payload. -/
inductive WalCursorEvent (Op : Type) where
  | entry (entry : WalEntry Op) (startOffset encodedLen : ℕ) (payload : Bytes)
  | corrupt (offset : ℕ) (reason : String)
  | tornTail (validPrefixLen : ℕ) (reason : String)
  | eof

inductive RecoveryMode where
  | strict
  | autoRepairTornTail
  | doctorRepairTornTail
deriving DecidableEq, Repr

structure WalReplayConfig where
  recoveryMode : RecoveryMode
  maxEntries : Option ℕ
  maxBytes : Option ℕ
  maxRecordBytes : Option ℕ
  maxBatchOperations : Option ℕ

structure WalDoctorOptions where
  maxWalBytes : Option ℕ
  maxRecordBytes : Option ℕ
  maxBatchOperations : Option ℕ

structure WalRepairBoundary where
  walGeneration : UInt64
  walReplayStartLsn : ℕ
  publishedPrefixLen : ℕ
  commitEpoch : ℕ

/-- The length and the checksums of a file. -/
structure FileIdentity where
  length : ℕ
  crc32c : UInt32
  sha256 : Bytes
deriving DecidableEq, Repr

inductive WalTailRepairReason where
  | incompleteFinalRecord
  | unsynchronizedSuffix
deriving DecidableEq, Repr

structure WalTailRepairPlan where
  walGeneration : UInt64
  walReplayStartLsn : ℕ
  nextLsnAfterRepair : ℕ
  manifest : FileIdentity
  originalWal : FileIdentity
  retainedWal : FileIdentity
  discardedWalTailBytes : ℕ
  reason : WalTailRepairReason
deriving DecidableEq, Repr

structure WalTailRepairReport where
  retainedWalLen : ℕ
  discardedWalTailBytes : ℕ
  nextLsnAfterRepair : ℕ
  resumedInterruptedRepair : Bool
  reason : WalTailRepairReason

/-- The log, its fence and the audit records of repairs that were not finished, as they load. -/
structure WalDirectory where
  wal : Bytes
  fence : Option Bytes
  pending : List (Except HawDBError WalTailRepairPlan)

/-- What recovery calls and does not itself decide: the record codec, the store it replays into
(`σ`, with the source the relational part is rebuilt from), and the other files. -/
structure RecoveryEnv (Op σ : Type) where
  decodeBinaryWalRecord : Bytes → Except HawDBError (BinaryWalRecordDecode Op)
  batchLength : Op → Option ℕ
  validateSourceWalOp : Op → ℕ → Option ℕ → Except HawDBError Unit
  recordSource : σ → ℕ → Bytes → Except HawDBError σ
  applyReplayedWalTransaction : σ → Op → Except HawDBError σ
  quarantineCorruptWal : Except HawDBError Unit
  loadBoundary : WalDirectory → WalDoctorOptions → Except HawDBError WalRepairBoundary
  manifestIdentity : FileIdentity
  planIdentity : WalTailRepairPlan → Bytes
  validateManifestIdentity : WalTailRepairPlan → Except HawDBError Unit
  validateQuarantine : WalDirectory → WalTailRepairPlan → Except HawDBError Unit
  quarantineBudget : WalTailRepairPlan → Except HawDBError Unit
  prepareRepair : WalDirectory → WalTailRepairPlan → Except HawDBError Unit
  finishRepair : WalTailRepairPlan → Except HawDBError Unit

namespace RecoveryEnv

variable {Op σ : Type} [Checksum] (env : RecoveryEnv Op σ)

/-- `WalRecordCursor::next`. -/
def cursorNext (s : BinaryWalReader) : Except HawDBError (WalCursorEvent Op × BinaryWalReader) :=
  match s.nextEvent with
  | .error e => .error e
  | .ok (.record payload startOffset endOffset, next) =>
    match env.decodeBinaryWalRecord payload with
    | .error e => .error e
    | .ok (.entry entry) =>
      .ok (.entry entry startOffset (endOffset - startOffset) payload, next)
    | .ok (.corrupt reason) => .ok (.corrupt startOffset reason, next)
  | .ok (.tornTail validPrefixLen reason, next) => .ok (.tornTail validPrefixLen reason, next)
  | .ok (.corrupt offset reason, next) => .ok (.corrupt offset reason, next)
  | .ok (.eof, next) => .ok (.eof, next)

omit [Checksum] in
def checkSequence (expectedLsn : ℕ) : WalCursorEvent Op → WalCursorEvent Op
  | .entry entry startOffset encodedLen payload =>
    if entry.lsn ≠ expectedLsn then
      .corrupt startOffset s!"WAL LSN sequence mismatch: expected {expectedLsn}, got {entry.lsn}"
    else .entry entry startOffset encodedLen payload
  | event => event

/-- The first lines of both loops. -/
def sequencedNext (s : BinaryWalReader) (expectedLsn : ℕ) :
    Except HawDBError (WalCursorEvent Op × BinaryWalReader) :=
  (env.cursorNext s).map fun (event, next) => (checkSequence expectedLsn event, next)

variable {env}

variable {s next : BinaryWalReader} {startOffset len : ℕ} {entry : WalEntry Op} {payload : Bytes}

lemma cursorNext_eq_entry :
    env.cursorNext s = .ok (.entry entry startOffset len payload, next) ↔
      env.decodeBinaryWalRecord payload = .ok (.entry entry) ∧
        ∃ endOffset, s.nextEvent = .ok (.record payload startOffset endOffset, next) ∧
          len = endOffset - startOffset := by
  constructor
  · intro h
    unfold cursorNext at h
    split at h
    · cases h
    · rename_i payload' startOffset' endOffset' next' hread
      split at h
      · cases h
      · rename_i entry' hdecode
        cases h
        exact ⟨hdecode, endOffset', hread, rfl⟩
      · cases h
    all_goals cases h
  · rintro ⟨hdecode, endOffset, hread, rfl⟩
    unfold cursorNext
    rw [hread]
    dsimp only
    rw [hdecode]

lemma sequencedNext_eq_entry {expectedLsn : ℕ} :
    env.sequencedNext s expectedLsn = .ok (.entry entry startOffset len payload, next) ↔
      entry.lsn = expectedLsn ∧
        env.cursorNext s = .ok (.entry entry startOffset len payload, next) := by
  unfold sequencedNext
  rw [map_eq_ok]
  constructor
  · rintro ⟨⟨event, next'⟩, hnext, hevent⟩
    obtain ⟨hchecked, rfl⟩ := Prod.mk.inj hevent
    cases event with
    | corrupt | tornTail | eof => cases hchecked
    | entry =>
      dsimp only [checkSequence] at hchecked
      split_ifs at hchecked with hlsn
      cases hchecked
      exact ⟨not_not.1 hlsn, hnext⟩
  · rintro ⟨hlsn, hnext⟩
    refine ⟨(.entry entry startOffset len payload, next), hnext, ?_⟩
    dsimp only [checkSequence]
    rw [if_neg (not_not.2 hlsn)]

lemma unread_lt_of_cursorNext
    (h : env.cursorNext s = .ok (.entry entry startOffset len payload, next)) :
    next.unread < s.unread := by
  obtain ⟨-, endOffset, hnext, -⟩ := cursorNext_eq_entry.1 h
  exact BinaryWalReader.unread_lt_of_record hnext

lemma unread_lt_of_entry {expectedLsn : ℕ}
    (h : env.sequencedNext s expectedLsn = .ok (.entry entry startOffset len payload, next)) :
    next.unread < s.unread :=
  unread_lt_of_cursorNext (sequencedNext_eq_entry.1 h).2

variable (env)

/-- What replay keeps between two entries. `replayed` is the entries it has applied, of which the
code keeps the number. -/
structure ReplayState (Op σ : Type) where
  validEnd : ℕ
  expectedLsn : ℕ
  replayed : List (WalEntry Op)
  store : σ

def replayEntry (config : WalReplayConfig) (st : ReplayState Op σ) (entry : WalEntry Op)
    (startOffset encodedLen : ℕ) (payload : Bytes) : Except HawDBError (ReplayState Op σ) :=
  if config.maxEntries.any (fun maxEntries => maxEntries ≤ st.replayed.length) then
    .error (.storage
      s!"WAL replay entry limit exceeded: max_wal_replay_entries={config.maxEntries.getD 0}")
  else if (env.batchLength entry.op).any
      (fun length => config.maxBatchOperations.any (fun limit => limit < length)) then
    .error (.storage ("WAL batch operation limit exceeded: " ++
      s!"max_wal_batch_operations={config.maxBatchOperations.getD 0}"))
  else do
    let store ← env.recordSource st.store entry.lsn payload
    match checkedSucc st.expectedLsn with
    | none => .error (.storage "WAL LSN overflow during replay")
    | some expectedLsn =>
      let store ← env.applyReplayedWalTransaction store entry.op
      pure { validEnd := startOffset + encodedLen, expectedLsn,
             replayed := st.replayed ++ [entry], store }

/-- Where the replay loop is left: at the end of the log, or at a tail to repair. -/
inductive ReplayStop where
  | eof
  | tail (validPrefixLen : ℕ) (reason : String)

def strictTailReason (reason : String) : String :=
  s!"strict WAL recovery rejected torn tail: {reason}; use DatabaseDoctor to inspect and " ++
    "explicitly repair the incomplete final record"

/-- `reject_wal_source_corruption`. -/
def rejectCorruption (offset : ℕ) (reason : String) : HawDBError :=
  match env.quarantineCorruptWal with
  | .error e => e
  | .ok () => .storage s!"WAL corruption at byte offset {offset}: {reason}"

/-- The loop of `replay_wal_interval_with_file`. -/
def replayLoop (config : WalReplayConfig) (readOnly : Bool) (fence : Option WalRecoveryFence)
    (s : BinaryWalReader) (st : ReplayState Op σ) :
    Except HawDBError (ReplayStop × ReplayState Op σ) :=
  let automatic := decide (config.recoveryMode = .autoRepairTornTail) && !readOnly
  match _h : env.sequencedNext s st.expectedLsn with
  | .error e => .error e
  | .ok (.eof, _) => .ok (.eof, st)
  | .ok (.tornTail validPrefixLen reason, _) =>
    if automatic then .ok (.tail validPrefixLen reason, st)
    else .error (.storage (strictTailReason reason))
  | .ok (.corrupt offset reason, _) =>
    if automatic && fenceAllows fence st.validEnd st.expectedLsn then
      .ok (.tail st.validEnd reason, st)
    else .error (env.rejectCorruption offset reason)
  | .ok (.entry entry startOffset encodedLen payload, next) =>
    match env.replayEntry config st entry startOffset encodedLen payload with
    | .error e => .error e
    | .ok st' => replayLoop config readOnly fence next st'
termination_by s.unread
decreasing_by exact unread_lt_of_entry _h

/-- Where the doctor's loop is left. -/
inductive InspectStop where
  | eof (nextLsn : ℕ)
  | damage (retained nextLsn : ℕ) (reason : WalTailRepairReason)

/-- The loop of `inspect_wal_tail_locked`. -/
def inspectLoop (options : WalDoctorOptions) (fence : Option WalRecoveryFence)
    (s : BinaryWalReader) (validEnd expectedLsn epoch : ℕ) : Except HawDBError InspectStop :=
  match _h : env.sequencedNext s expectedLsn with
  | .error e => .error e
  | .ok (.eof, _) => .ok (.eof expectedLsn)
  | .ok (.tornTail validPrefixLen _, _) =>
    .ok (.damage validPrefixLen expectedLsn .incompleteFinalRecord)
  | .ok (.corrupt offset reason, _) =>
    if fenceAllows fence validEnd expectedLsn then
      .ok (.damage validEnd expectedLsn .unsynchronizedSuffix)
    else
      .error (.storage s!"WAL doctor rejected corruption at byte offset {offset}: {reason}")
  | .ok (.entry entry startOffset encodedLen _, next) =>
    match checkedSucc epoch with
    | none => .error (.storageIntegrity "WAL transaction epoch overflow during doctor scan")
    | some epoch' =>
      match env.validateSourceWalOp entry.op epoch' options.maxBatchOperations with
      | .error e => .error e
      | .ok () =>
        match checkedSucc expectedLsn with
        | none => .error (.storage "WAL LSN overflow during doctor scan")
        | some expectedLsn' =>
          inspectLoop options fence next (startOffset + encodedLen) expectedLsn' epoch'
termination_by s.unread
decreasing_by exact unread_lt_of_entry _h

variable [Digest]

omit env in
def fileIdentity (file : Bytes) : FileIdentity :=
  ⟨file.length, Checksum.crc32c file, Digest.sha256 file⟩

omit [Checksum] [Digest] in
/-- `load_single_pending_record`. -/
def loadSinglePendingRecord (dir : WalDirectory) :
    Except HawDBError (Option WalTailRepairPlan) :=
  match dir.pending with
  | [] => .ok none
  | [record] => record.map some
  | _ => .error (.storage "database has multiple pending WAL doctor repair records")

omit [Checksum] [Digest] in
/-- `load_matching_pending_record`. -/
def loadMatchingPendingRecord (dir : WalDirectory) (plan : WalTailRepairPlan) :
    Except HawDBError (Option WalTailRepairPlan) := do
  match ← loadSinglePendingRecord dir with
  | none => pure none
  | some record =>
    if env.planIdentity record = env.planIdentity plan then pure (some record)
    else .error (.storage "database has a pending WAL doctor repair for a different plan")

/-- `build_plan`, with the reason. -/
def buildPlan (dir : WalDirectory) (boundary : WalRepairBoundary) (nextLsnAfterRepair : ℕ)
    (retained : ℕ) (reason : WalTailRepairReason) : Except HawDBError WalTailRepairPlan :=
  if dir.wal.length < retained then
    .error (.storage "WAL ended before the planned retained prefix")
  else
    .ok { walGeneration := boundary.walGeneration
          walReplayStartLsn := boundary.walReplayStartLsn
          nextLsnAfterRepair
          manifest := env.manifestIdentity
          originalWal := fileIdentity dir.wal
          retainedWal := fileIdentity (dir.wal.take retained)
          discardedWalTailBytes := dir.wal.length - retained
          reason }

/-- The log of a directory, opened for a generation; `torn` and `corrupt` say how an incomplete and
a damaged header are reported. -/
def openGeneration (wal : Bytes) (maxRecordBytes : Option ℕ) (generation : UInt64)
    (startLsn : ℕ) (torn : String → HawDBError) (corrupt : String → HawDBError) :
    Except HawDBError BinaryWalReader :=
  match openWal wal maxRecordBytes with
  | .missingHeader => .error (.storage s!"WAL generation {generation} is missing its header")
  | .headerTorn reason => .error (torn reason)
  | .headerCorrupt reason => .error (corrupt reason)
  | .cursor foundGeneration foundLsn reader =>
    if foundGeneration ≠ generation ∨ foundLsn ≠ startLsn then
      .error (.storage (s!"WAL header generation/start ({foundGeneration}, {foundLsn}) does not " ++
        s!"match manifest ({generation}, {startLsn})"))
    else .ok reader

/-- `inspect_wal_tail_locked` up to the end of its loop: the boundary, the fence and where the loop
is left. -/
def inspectStop (options : WalDoctorOptions) (dir : WalDirectory) :
    Except HawDBError (WalRepairBoundary × Option WalRecoveryFence × InspectStop) := do
  let boundary ← env.loadBoundary dir options
  if options.maxWalBytes.any (fun limit => limit < dir.wal.length) then
    .error (.storage s!"WAL doctor byte limit exceeded: max_wal_bytes={options.maxWalBytes.getD 0}")
  else
    let reader ← openGeneration dir.wal options.maxRecordBytes boundary.walGeneration
      boundary.walReplayStartLsn
      (fun _ => .storage "WAL doctor rejected an incomplete WAL header")
      (fun reason => .storage s!"WAL doctor rejected corruption at byte offset 0: {reason}")
    let fence ← WalRecoveryFence.load dir.fence boundary.walGeneration boundary.walReplayStartLsn
    let stop ← env.inspectLoop options fence reader walBinaryFileHeaderBytes
      boundary.walReplayStartLsn boundary.commitEpoch
    pure (boundary, fence, stop)

/-- `validate_pending_truncated_wal`. -/
def validatePendingTruncatedWal (dir : WalDirectory) (plan : WalTailRepairPlan) :
    Except HawDBError Unit := do
  env.validateManifestIdentity plan
  if fileIdentity dir.wal ≠ plan.retainedWal then
    .error (.storage "pending WAL doctor repair does not match the current WAL identity")
  else env.validateQuarantine dir plan

/-- `inspect_wal_tail_locked`. -/
def inspectWalTail (options : WalDoctorOptions) (dir : WalDirectory) :
    Except HawDBError WalTailRepairPlan := do
  let (boundary, fence, stop) ← env.inspectStop options dir
  match stop with
  | .damage retained nextLsn reason =>
    if retained < boundary.publishedPrefixLen then
      .error (.storageIntegrity "WAL repair would discard a published branch prefix")
    else
      validateFence fence retained nextLsn
      let plan ← env.buildPlan dir boundary nextLsn retained reason
      match ← env.loadMatchingPendingRecord dir plan with
      | none => pure plan
      | some pending =>
        if pending ≠ plan then
          .error (.storageIntegrity "pending WAL repair differs from current plan")
        else pure plan
  | .eof nextLsn =>
    validateFence fence dir.wal.length nextLsn
    match ← loadSinglePendingRecord dir with
    | none => .error (.storage "WAL doctor found no repairable incomplete final record")
    | some plan =>
      env.validatePendingTruncatedWal dir plan
      pure plan

/-- `protect_repaired_prefix`: the fence moves to the end of what is kept. -/
def protectRepairedPrefix (dir : WalDirectory) (plan : WalTailRepairPlan) :
    Except HawDBError WalDirectory := do
  match ← WalRecoveryFence.load dir.fence plan.walGeneration plan.walReplayStartLsn with
  | none => pure dir
  | some fence =>
    fence.validateRetained plan.retainedWal.length plan.nextLsnAfterRepair
    let moved := { fence with
      protectedBytes := plan.retainedWal.length, nextLsn := plan.nextLsnAfterRepair }
    if moved = fence then pure dir else pure { dir with fence := some moved.encode }

/-- `finalize_repair`. -/
def finalizeRepair (dir : WalDirectory) (plan : WalTailRepairPlan) (resumed : Bool) :
    Except HawDBError (WalDirectory × WalTailRepairReport) := do
  env.validateQuarantine dir plan
  let dir ← protectRepairedPrefix dir plan
  env.finishRepair plan
  pure ({ dir with pending := [] },
    { retainedWalLen := plan.retainedWal.length
      discardedWalTailBytes := plan.discardedWalTailBytes
      nextLsnAfterRepair := plan.nextLsnAfterRepair
      resumedInterruptedRepair := resumed
      reason := plan.reason })

/-- `apply_wal_tail_repair_locked` on a log that is truncated already. -/
def resumeRepair (options : WalDoctorOptions) (dir : WalDirectory) (plan : WalTailRepairPlan) :
    Option WalTailRepairPlan → Except HawDBError (WalDirectory × WalTailRepairReport)
  | none => .error (.storage
      "WAL already matches the retained prefix without a pending doctor audit record")
  | some pending =>
    if pending ≠ plan then
      .error (.storage "pending WAL doctor repair record does not match the requested plan")
    else do
      let _ ← env.inspectWalTail options dir
      env.finalizeRepair dir pending true

omit [Checksum] [Digest] in
/-- The audit record of an attempt that did not come to truncate the log. -/
def validatePendingRecord (dir : WalDirectory) (plan : WalTailRepairPlan) :
    Option WalTailRepairPlan → Except HawDBError Unit
  | none => .ok ()
  | some record =>
    if record ≠ plan then
      .error (.storage "pending WAL doctor repair record does not match the requested plan")
    else env.validateQuarantine dir record

/-- `apply_wal_tail_repair_locked` from the preparation of the audit on. -/
def truncateWal (dir : WalDirectory) (plan : WalTailRepairPlan) :
    Except HawDBError (WalDirectory × WalTailRepairReport) := do
  env.prepareRepair dir plan
  env.validateQuarantine dir plan
  let dir ← protectRepairedPrefix dir plan
  env.validateManifestIdentity plan
  let truncated := { dir with wal := dir.wal.take plan.retainedWal.length }
  if fileIdentity truncated.wal ≠ plan.retainedWal then
    .error (.storage ("WAL doctor repair produced an unexpected retained WAL identity; " ++
      "pending audit was retained"))
  else env.finalizeRepair truncated plan false

/-- `apply_wal_tail_repair_locked`, on a plan whose own identity is right. -/
def applyWalTailRepair (options : WalDoctorOptions) (dir : WalDirectory)
    (plan : WalTailRepairPlan) : Except HawDBError (WalDirectory × WalTailRepairReport) := do
  if plan.discardedWalTailBytes = 0 then
    .error (.storage "WAL doctor repair plan identity is invalid")
  else
  let boundary ← env.loadBoundary dir options
  if boundary.walGeneration ≠ plan.walGeneration ∨
      boundary.walReplayStartLsn ≠ plan.walReplayStartLsn then
    .error (.storage "WAL generation changed after the doctor repair plan was created")
  else
  env.validateManifestIdentity plan
  let pending ← env.loadMatchingPendingRecord dir plan
  if fileIdentity dir.wal = plan.retainedWal then
    env.resumeRepair options dir plan pending
  else if fileIdentity dir.wal ≠ plan.originalWal then
    .error (.storage "WAL changed after the doctor repair plan was created; no files were modified")
  else
  let currentPlan ← env.inspectWalTail options dir
  if currentPlan ≠ plan then
    .error (.storage "WAL doctor repair plan no longer matches the current database state")
  else
    env.validateManifestIdentity plan
    env.validatePendingRecord dir plan pending
    env.truncateWal dir plan

/-- `automatic_wal_tail_repair_locked`. -/
def automaticWalTailRepair (config : WalReplayConfig) (dir : WalDirectory) :
    Except HawDBError (WalDirectory × WalTailRepairReport) := do
  let options : WalDoctorOptions :=
    ⟨config.maxBytes, config.maxRecordBytes, config.maxBatchOperations⟩
  let plan ← env.inspectWalTail options dir
  if config.maxBytes.any (fun limit => limit < plan.originalWal.length) then
    .error (.storage "automatic WAL repair exceeds the configured replay byte limit")
  else
    env.quarantineBudget plan
    env.applyWalTailRepair options dir plan

/-- `resume_automatic_wal_tail_repair_locked`. -/
def resumeAutomaticWalTailRepair (config : WalReplayConfig) (dir : WalDirectory) :
    Except HawDBError (WalDirectory × Option WalTailRepairReport) :=
  if dir.pending.isEmpty then .ok (dir, none)
  else (env.automaticWalTailRepair config dir).map fun (dir, report) => (dir, some report)

/-- `replay_wal_interval_with_file` up to the end of its loop: the fence and where the loop is
left. -/
def replayStop (config : WalReplayConfig) (readOnly : Bool) (generation : UInt64) (startLsn : ℕ)
    (dir : WalDirectory) (store : σ) :
    Except HawDBError (Option WalRecoveryFence × ReplayStop × ReplayState Op σ) := do
  if config.maxBytes.any (fun limit => limit < dir.wal.length) then
    .error (.storage
      s!"WAL replay byte limit exceeded: max_wal_replay_bytes={config.maxBytes.getD 0}")
  else
    let reader ← openGeneration dir.wal config.maxRecordBytes generation startLsn .storage
      (env.rejectCorruption 0)
    let fence ← WalRecoveryFence.load dir.fence generation startLsn
    let (stop, st) ← env.replayLoop config readOnly fence reader
      ⟨walBinaryFileHeaderBytes, startLsn, [], store⟩
    pure (fence, stop, st)

/-- What replay reports, with the directory it leaves. -/
structure WalReplayReport (Op σ : Type) where
  directory : WalDirectory
  retainedWalLen : ℕ
  nextLsnAfterReplay : ℕ
  replayed : List (WalEntry Op)
  store : σ

/-- Where the replay loop is left: at a damaged tail the doctor is called. -/
def repairTail (config : WalReplayConfig) (dir : WalDirectory)
    (tailRepair : Option WalTailRepairReport) :
    ReplayStop → Except HawDBError (WalDirectory × Option WalTailRepairReport)
  | .eof => .ok (dir, tailRepair)
  | .tail _ _ =>
    (env.automaticWalTailRepair config dir).map fun (dir, report) => (dir, some report)

/-- `replay_wal_interval_with_file`; `tailRepair` is a repair that was resumed before. -/
def replayWal (config : WalReplayConfig) (readOnly : Bool) (generation : UInt64) (startLsn : ℕ)
    (dir : WalDirectory) (tailRepair : Option WalTailRepairReport) (store : σ) :
    Except HawDBError (WalReplayReport Op σ) := do
  let (fence, stop, st) ← env.replayStop config readOnly generation startLsn dir store
  let (directory, tailRepair) ← env.repairTail config dir tailRepair stop
  let retainedWalLen := tailRepair.elim dir.wal.length WalTailRepairReport.retainedWalLen
  validateFence fence retainedWalLen st.expectedLsn
  pure { directory, retainedWalLen, nextLsnAfterReplay := st.expectedLsn,
         replayed := st.replayed, store := st.store }

/-- What opening a database does before replay: an interrupted repair is resumed, or refused. -/
def resumeRepairs (config : WalReplayConfig) (readOnly : Bool) (dir : WalDirectory) :
    Except HawDBError (WalDirectory × Option WalTailRepairReport) :=
  if decide (config.recoveryMode = .autoRepairTornTail) && !readOnly then
    env.resumeAutomaticWalTailRepair config dir
  else if dir.pending.isEmpty then .ok (dir, none)
  else .error (.storage (s!"database has {dir.pending.length} interrupted WAL doctor repair " ++
    "record(s); finish the repair with DatabaseDoctor before opening the database"))

/-- A cursor called until it gives something else than an entry. -/
def readEntries (s : BinaryWalReader) :
    Except HawDBError (List (WalEntry Op) × WalCursorEvent Op) :=
  match _h : env.cursorNext s with
  | .error e => .error e
  | .ok (.entry entry _ _ _, next) =>
    (readEntries next).map fun (entries, stop) => (entry :: entries, stop)
  | .ok (event, _) => .ok ([], event)
termination_by s.unread
decreasing_by exact unread_lt_of_cursorNext _h

end RecoveryEnv

end HawDB
