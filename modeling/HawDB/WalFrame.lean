import HawDB.Bytes
import HawDB.Error
import HawDB.Result

/-!
# Framing of the write-ahead log

After a header of 28 bytes a log file is a sequence of blocks of 32 KiB. A record is written as one
or more fragments, each with a header of 15 bytes and none across a block boundary. The reader puts
the fragments of a record together and says where a file ends, is torn or is damaged.
-/

namespace HawDB

/-- `crc32c`; no result depends on what it computes. -/
class Checksum where
  crc32c : Bytes → UInt32

def walBlockBytes : ℕ := 32 * 1024
def walFragmentHeaderBytes : ℕ := 15
def walBinaryFileHeaderBytes : ℕ := 28

def fragmentFull : UInt8 := 1
def fragmentFirst : UInt8 := 2
def fragmentMiddle : UInt8 := 3
def fragmentLast : UInt8 := 4

def crcMaskDelta : UInt32 := 0xa282ead8

/-- `rotate_right(15)`. -/
def rotateRight15 (x : UInt32) : UInt32 := (x >>> 15) ||| (x <<< 17)

section

variable [Checksum]

def maskedFragmentCrc (fragmentType : UInt8) (generation : UInt64) (payload : Bytes) : UInt32 :=
  rotateRight15 (Checksum.crc32c (fragmentType :: leBytes 8 generation.toNat ++ payload)) +
    crcMaskDelta

/-- A fragment: its header and its part of the record. -/
def encodeFragment (generation : UInt64) (fragmentType : UInt8) (chunk : Bytes) : Bytes :=
  leBytes 4 (maskedFragmentCrc fragmentType generation chunk).toNat ++ leBytes 2 chunk.length ++
    [fragmentType] ++ leBytes 8 generation.toNat ++ chunk

/-- The type of a fragment: whether it is the first of its record, and whether it is the last. -/
def fragmentTypeOf : Bool → Bool → UInt8
  | true, true => fragmentFull
  | true, false => fragmentFirst
  | false, true => fragmentLast
  | false, false => fragmentMiddle

/-- The loop of `frame_binary_wal_record`, from a position in a block. -/
def frameLoop (generation : UInt64) (first : Bool) (blockPos : ℕ) (remaining : Bytes) : Bytes :=
  let available := walBlockBytes - blockPos - walFragmentHeaderBytes
  let chunk := remaining.take available
  let rest := remaining.drop available
  let fragment := encodeFragment generation (fragmentTypeOf first rest.isEmpty) chunk
  if rest = [] then fragment else fragment ++ frameLoop generation false 0 rest
termination_by (remaining.length, blockPos)
decreasing_by
  rename_i hrest
  by_cases hpos : blockPos = 0
  · have hlt : walBlockBytes - blockPos - walFragmentHeaderBytes < remaining.length := by
      by_contra hle
      exact hrest (List.drop_eq_nil_of_le (by omega))
    have hzero : 0 < walBlockBytes - blockPos - walFragmentHeaderBytes := by
      subst hpos
      decide
    apply Prod.Lex.left
    rw [List.length_drop]
    omega
  · apply Prod.Lex.right'
    · rw [List.length_drop]
      exact Nat.sub_le _ _
    · omega

/-- The bytes to append at a position after the file header. -/
def frameBinaryWalRecord (generation : UInt64) (payload : Bytes) (position : ℕ) : Bytes :=
  let blockPos := position % walBlockBytes
  if walBlockBytes - blockPos < walFragmentHeaderBytes then
    List.replicate (walBlockBytes - blockPos) 0 ++ frameLoop generation true 0 payload
  else frameLoop generation true blockPos payload

end

inductive BinaryWalReadEvent where
  | record (payload : Bytes) (startOffset endOffset : ℕ)
  | tornTail (validPrefixLen : ℕ) (reason : String)
  | corrupt (offset : ℕ) (reason : String)
  | eof
deriving DecidableEq, Repr

structure PendingChain where
  startOffset : ℕ
  payload : Bytes
deriving DecidableEq, Repr

inductive FragmentParse where
  | fragment (fragmentType : UInt8) (payloadEnd : ℕ)
  | endOfLog (reason : String)
  | corrupt (reason : String)
  | torn (reason : String)
  | needNextBlock
  | endOfStream
deriving DecidableEq, Repr

/-- The reader, on the bytes it has not taken from its stream. `block` is what the current block
holds, up to `block_len`. -/
structure BinaryWalReader where
  stream : Bytes
  generation : UInt64
  maxRecordBytes : Option ℕ
  block : Bytes
  blockPos : ℕ
  blockOffset : ℕ
  streamEnded : Bool
  blockLoaded : Bool
  chain : Option PendingChain
  finished : Bool
  endOffset : Option ℕ
  blockPos_le : blockPos ≤ block.length

namespace BinaryWalReader

def new (stream : Bytes) (generation : UInt64) (maxRecordBytes : Option ℕ) : BinaryWalReader where
  stream
  generation
  maxRecordBytes
  block := []
  blockPos := 0
  blockOffset := walBinaryFileHeaderBytes
  streamEnded := false
  blockLoaded := false
  chain := none
  finished := false
  endOffset := none
  blockPos_le := le_rfl

def openFile (file : Bytes) (generation : UInt64) (maxRecordBytes : Option ℕ) : BinaryWalReader :=
  new (file.drop walBinaryFileHeaderBytes) generation maxRecordBytes

/-- The loop reads until the block is full, the stream is at its end or the captured end is
reached. -/
def loadNextBlock (s : BinaryWalReader) : BinaryWalReader :=
  let blockOffset := s.blockOffset + s.block.length
  let remaining :=
    match s.endOffset with
    | none => walBlockBytes
    | some limit => min (limit - blockOffset) walBlockBytes
  let block := s.stream.take remaining
  { s with
    stream := s.stream.drop remaining
    block
    blockPos := 0
    blockOffset
    streamEnded := s.streamEnded || decide (block.length < walBlockBytes)
    blockLoaded := true
    blockPos_le := Nat.zero_le _ }

/-- `range`. -/
def range (file : Bytes) (generation : UInt64) (maxRecordBytes : Option ℕ)
    (fromOffset toOffset : ℕ) : Except HawDBError BinaryWalReader :=
  if fromOffset < walBinaryFileHeaderBytes ∨ toOffset < fromOffset then
    .error (.storage "invalid captured WAL byte interval")
  else
    let dataOffset := fromOffset - walBinaryFileHeaderBytes
    let blockStart := walBinaryFileHeaderBytes + dataOffset / walBlockBytes * walBlockBytes
    let cursor := { new (file.drop blockStart) generation maxRecordBytes with
      blockOffset := blockStart
      endOffset := some toOffset }
    if fromOffset = toOffset then .ok { cursor with finished := true }
    else
      let cursor := cursor.loadNextBlock
      let skip := fromOffset - blockStart
      if h : cursor.block.length < skip then
        .error (.storage "captured WAL interval starts beyond the available bytes")
      else .ok { cursor with blockPos := skip, blockPos_le := Nat.le_of_not_lt h }

end BinaryWalReader

section

variable [Checksum]

/-- The checksum, the length, the type and the generation of a fragment header. -/
def headerFields (header : Bytes) : ℕ × ℕ × UInt8 × ℕ :=
  (leNat (header.take 4), leNat ((header.drop 4).take 2), header.getD 6 0,
    leNat ((header.drop 7).take 8))

/-- What is wrong with a fragment, in the words of the reader. -/
def overflowReason (declaredLen : ℕ) : String :=
  s!"fragment length {declaredLen} overflows its 32 KiB block"

def cutShortReason (declaredLen : ℕ) : String :=
  s!"fragment payload of {declaredLen} bytes is cut short at end of file"

def checksumReason (expectedCrc storedCrc : ℕ) : String :=
  s!"fragment checksum mismatch: expected {expectedCrc}, got {storedCrc}"

def typeReason (fragmentType : UInt8) : String := s!"invalid fragment type {fragmentType}"

def staleReason (fragmentGeneration expected : ℕ) : String :=
  s!"fragment carries stale WAL generation {fragmentGeneration}, expected {expected}"

/-- `parse_fragment_at_cursor` from the header of a fragment on. -/
def parseHeader (generation : UInt64) (block : Bytes) (blockPos : ℕ) (streamEnded : Bool)
    (storedCrc declaredLen : ℕ) (fragmentType : UInt8) (fragmentGeneration : ℕ) : FragmentParse :=
  if storedCrc = 0 ∧ declaredLen = 0 ∧ fragmentType = 0 ∧ fragmentGeneration = 0 then
    .endOfLog "unwritten (all-zero) fragment header"
  else
    let payloadStart := blockPos + walFragmentHeaderBytes
    let payloadEnd := payloadStart + declaredLen
    if walBlockBytes < payloadEnd then .corrupt (overflowReason declaredLen)
    else if block.length < payloadEnd then
      if streamEnded then .torn (cutShortReason declaredLen)
      else .corrupt "fragment payload crosses a block boundary"
    else
      let payload := (block.drop payloadStart).take declaredLen
      let expectedCrc :=
        (maskedFragmentCrc fragmentType (UInt64.ofNat fragmentGeneration) payload).toNat
      if storedCrc ≠ expectedCrc then .corrupt (checksumReason expectedCrc storedCrc)
      else if fragmentType < fragmentFull ∨ fragmentLast < fragmentType then
        .corrupt (typeReason fragmentType)
      else if fragmentGeneration ≠ generation.toNat then
        .endOfLog (staleReason fragmentGeneration generation.toNat)
      else .fragment fragmentType payloadEnd

/-- `parse_fragment_at_cursor` in a block that is loaded. -/
def parseBlock (generation : UInt64) (block : Bytes) (blockPos : ℕ) (streamEnded : Bool) :
    FragmentParse :=
  let remaining := block.length - blockPos
  if remaining = 0 then if streamEnded then .endOfStream else .needNextBlock
  else if walBlockBytes - blockPos < walFragmentHeaderBytes then
    if (block.drop blockPos).any (fun byte => byte ≠ 0) then
      .corrupt "block trailer is not zero-filled"
    else if block.length < walBlockBytes then .torn "block trailer is cut short at end of file"
    else .needNextBlock
  else if remaining < walFragmentHeaderBytes then
    .torn "fragment header is cut short at end of file"
  else
    let (storedCrc, declaredLen, fragmentType, fragmentGeneration) :=
      headerFields ((block.drop blockPos).take walFragmentHeaderBytes)
    parseHeader generation block blockPos streamEnded storedCrc declaredLen fragmentType
      fragmentGeneration

lemma parseBlock_fragment {block : Bytes}
    (h : parseBlock generation block blockPos streamEnded = .fragment fragmentType payloadEnd) :
    blockPos + walFragmentHeaderBytes ≤ payloadEnd ∧ payloadEnd ≤ block.length := by
  unfold parseBlock at h
  dsimp only at h
  split_ifs at h
  unfold parseHeader at h
  dsimp only at h
  split_ifs at h
  obtain ⟨-, rfl⟩ := FragmentParse.fragment.inj h
  omega

end

namespace BinaryWalReader

/-- The bytes a reader has yet to look at. -/
def unread (s : BinaryWalReader) : ℕ := s.stream.length + (s.block.length - s.blockPos)

/-- The first lines of `parse_fragment_at_cursor`: a block that is read to its end makes room for
the next. -/
def ensureLoaded (s : BinaryWalReader) : BinaryWalReader :=
  if !s.blockLoaded || (decide (s.blockPos = s.block.length) && !s.streamEnded) then
    s.loadNextBlock
  else s

/-- The rest of the block is a trailer. -/
def skipBlock (s : BinaryWalReader) : BinaryWalReader :=
  { s with blockPos := s.block.length, blockPos_le := le_rfl }

def enforceRecordLimit (s : BinaryWalReader) (payloadLen : ℕ) : Except HawDBError Unit :=
  match s.maxRecordBytes with
  | none => .ok ()
  | some limit =>
    if limit < payloadLen then
      .error (.storage s!"WAL record byte limit exceeded: max_wal_record_bytes={limit}")
    else .ok ()

lemma unread_loadNextBlock (s : BinaryWalReader) : s.loadNextBlock.unread = s.stream.length := by
  simp only [unread, loadNextBlock, List.length_take, List.length_drop]
  omega

lemma unread_ensureLoaded_le (s : BinaryWalReader) : s.ensureLoaded.unread ≤ s.unread := by
  unfold ensureLoaded
  split_ifs
  · rw [unread_loadNextBlock]
    exact Nat.le_add_right _ _
  · exact le_rfl

variable [Checksum]

/-- What stands at the cursor of a reader whose block is loaded. -/
def parseFragment (s : BinaryWalReader) : FragmentParse :=
  parseBlock s.generation s.block s.blockPos s.streamEnded

lemma unread_skipBlock_lt {s : BinaryWalReader}
    (h : s.ensureLoaded.parseFragment = .needNextBlock) :
    s.ensureLoaded.skipBlock.unread < s.unread := by
  refine lt_of_lt_of_le ?_ (unread_ensureLoaded_le s)
  have hne : s.ensureLoaded.block.length - s.ensureLoaded.blockPos ≠ 0 := by
    intro hzero
    have hended : s.ensureLoaded.streamEnded = true := by
      revert hzero
      unfold ensureLoaded
      split_ifs with hload
      · intro hzero
        have hblock : s.loadNextBlock.block.length = 0 := hzero
        have hlt : s.loadNextBlock.block.length < walBlockBytes := by
          rw [hblock]
          decide
        show (s.streamEnded || decide (s.loadNextBlock.block.length < walBlockBytes)) = true
        rw [decide_eq_true hlt, Bool.or_true]
      · intro hzero
        have hle := s.blockPos_le
        by_contra hended
        refine hload ?_
        rw [decide_eq_true (show s.blockPos = s.block.length by omega), Bool.eq_false_iff.2 hended]
        simp
    rw [parseFragment, parseBlock] at h
    rw [if_pos hzero, if_pos hended] at h
    cases h
  simp only [unread, skipBlock]
  omega

def startsLive (s : BinaryWalReader) : Bool :=
  let (storedCrc, declaredLen, fragmentType, fragmentGeneration) :=
    headerFields (s.block.take walFragmentHeaderBytes)
  let payloadEnd := walFragmentHeaderBytes + declaredLen
  decide (walFragmentHeaderBytes ≤ s.block.length) &&
    decide (fragmentFull ≤ fragmentType ∧ fragmentType ≤ fragmentLast) &&
    decide (fragmentGeneration = s.generation.toNat) && decide (payloadEnd ≤ s.block.length) &&
    decide (storedCrc = (maskedFragmentCrc fragmentType (UInt64.ofNat fragmentGeneration)
      ((s.block.take payloadEnd).drop walFragmentHeaderBytes)).toNat)

/-- Resynchronization at block boundaries: a later block starts with a live fragment. -/
def liveFragmentAfter (s : BinaryWalReader) : Bool :=
  if s.loadNextBlock.block.length = 0 then false
  else if s.loadNextBlock.startsLive then true
  else if s.loadNextBlock.streamEnded then false
  else s.loadNextBlock.liveFragmentAfter
termination_by s.stream.length
decreasing_by
  rename_i hne _ _
  simp only [loadNextBlock, List.length_take, List.length_drop] at hne ⊢
  omega

def endOfLog (s : BinaryWalReader) (offset : ℕ) (markerReason : String) :
    BinaryWalReadEvent × BinaryWalReader :=
  if s.liveFragmentAfter then
    (.corrupt offset s!"valid fragments follow an end-of-log marker ({markerReason})",
      { s with finished := true })
  else
    (.corrupt (s.chain.elim offset PendingChain.startOffset)
      s!"unwritten or stale WAL suffix ({markerReason})", { s with finished := true, chain := none })

/-- `next_event` on a fragment: an event, or the fragment taken into the chain. -/
def takeFragment (s : BinaryWalReader) (fragmentOffset : ℕ) (fragmentType : UInt8)
    (payloadEnd : ℕ) (hend : payloadEnd ≤ s.block.length) :
    Except HawDBError (Option BinaryWalReadEvent × BinaryWalReader) :=
  let payload := (s.block.take payloadEnd).drop (s.blockPos + walFragmentHeaderBytes)
  let moved := { s with blockPos := payloadEnd, blockPos_le := hend }
  if fragmentType = fragmentFull then
    if s.chain.isSome then
      .ok (some (.corrupt fragmentOffset "FULL fragment interrupts an open fragment chain"),
        { s with finished := true })
    else
      (s.enforceRecordLimit payload.length).map fun () =>
        (some (.record payload fragmentOffset (s.blockOffset + payloadEnd)), moved)
  else if fragmentType = fragmentFirst then
    if s.chain.isSome then
      .ok (some (.corrupt fragmentOffset "FIRST fragment interrupts an open fragment chain"),
        { s with finished := true })
    else
      (s.enforceRecordLimit payload.length).map fun () =>
        (none, { moved with chain := some ⟨fragmentOffset, payload⟩ })
  else
    match s.chain with
    | none =>
      .ok (some (.corrupt fragmentOffset "continuation fragment without a FIRST fragment"),
        { moved with finished := true })
    | some chain =>
      let payload := chain.payload ++ payload
      (s.enforceRecordLimit payload.length).map fun () =>
        if fragmentType = fragmentLast then
          (some (.record payload chain.startOffset (s.blockOffset + payloadEnd)),
            { moved with chain := none })
        else (none, { moved with chain := some ⟨chain.startOffset, payload⟩ })

omit [Checksum] in
lemma takeFragment_none {s s' : BinaryWalReader} {hend : payloadEnd ≤ s.block.length}
    (h : s.takeFragment fragmentOffset fragmentType payloadEnd hend = .ok (none, s')) :
    ∃ chain, s' = { s with blockPos := payloadEnd, blockPos_le := hend, chain := some chain } := by
  unfold takeFragment at h
  dsimp only at h
  split_ifs at h
  · cases h
  · obtain ⟨⟨⟩, -, hs⟩ := map_eq_ok.1 h
    cases hs
  · cases h
  · obtain ⟨⟨⟩, -, hs⟩ := map_eq_ok.1 h
    cases hs
    exact ⟨_, rfl⟩
  · split at h
    · cases h
    · obtain ⟨⟨⟩, -, hs⟩ := map_eq_ok.1 h
      cases hs
  · split at h
    · cases h
    · obtain ⟨⟨⟩, -, hs⟩ := map_eq_ok.1 h
      cases hs
      exact ⟨_, rfl⟩

/-- `next_event` at the end of the bytes. -/
def endOfStream : Option PendingChain → BinaryWalReadEvent
  | some chain => .tornTail chain.startOffset "fragment chain is incomplete at end of file"
  | none => .eof

/-- The loop of `next_event`. -/
def nextEventLoop (s : BinaryWalReader) :
    Except HawDBError (BinaryWalReadEvent × BinaryWalReader) :=
  match _h : s.ensureLoaded.parseFragment with
  | .needNextBlock => s.ensureLoaded.skipBlock.nextEventLoop
  | .endOfStream =>
    .ok (endOfStream s.chain, { s.ensureLoaded with finished := true, chain := none })
  | .torn reason =>
    .ok (.tornTail (s.chain.elim (s.blockOffset + s.blockPos) PendingChain.startOffset) reason,
      { s.ensureLoaded with finished := true, chain := none })
  | .corrupt reason =>
    .ok (.corrupt (s.blockOffset + s.blockPos) reason, { s.ensureLoaded with finished := true })
  | .endOfLog reason => .ok (s.ensureLoaded.endOfLog (s.blockOffset + s.blockPos) reason)
  | .fragment fragmentType payloadEnd =>
    match _htake : s.ensureLoaded.takeFragment (s.blockOffset + s.blockPos) fragmentType payloadEnd
        (parseBlock_fragment _h).2 with
    | .error e => .error e
    | .ok (some event, next) => .ok (event, next)
    | .ok (none, next) => next.nextEventLoop
termination_by s.unread
decreasing_by
  · exact unread_skipBlock_lt _h
  · obtain ⟨chain, rfl⟩ := takeFragment_none _htake
    have hend := parseBlock_fragment _h
    refine lt_of_lt_of_le ?_ (unread_ensureLoaded_le s)
    have hheader : 0 < walFragmentHeaderBytes := by decide
    simp only [unread]
    omega

def nextEvent (s : BinaryWalReader) : Except HawDBError (BinaryWalReadEvent × BinaryWalReader) :=
  if s.finished then .ok (.eof, s) else s.nextEventLoop

omit [Checksum] in
lemma takeFragment_record {s s' : BinaryWalReader} {hend : payloadEnd ≤ s.block.length}
    {startOffset endOffset : ℕ} (h : s.takeFragment fragmentOffset fragmentType payloadEnd hend =
      .ok (some (.record payload startOffset endOffset), s')) :
    s' = { s with blockPos := payloadEnd, blockPos_le := hend, chain := none } := by
  unfold takeFragment at h
  dsimp only at h
  split_ifs at h with _ hchain
  · cases h
  · obtain ⟨⟨⟩, -, hs⟩ := map_eq_ok.1 h
    cases hs
    rw [Bool.not_eq_true, Option.isSome_eq_false_iff, Option.isNone_iff_eq_none] at hchain
    simp only [hchain]
  · cases h
  · obtain ⟨⟨⟩, -, hs⟩ := map_eq_ok.1 h
    cases hs
  · split at h
    · cases h
    · obtain ⟨⟨⟩, -, hs⟩ := map_eq_ok.1 h
      cases hs
      rfl
  · split at h
    · cases h
    · obtain ⟨⟨⟩, -, hs⟩ := map_eq_ok.1 h
      cases hs

lemma unread_lt_of_record {s s' : BinaryWalReader} {startOffset endOffset : ℕ}
    (h : s.nextEvent = .ok (.record payload startOffset endOffset, s')) : s'.unread < s.unread := by
  unfold nextEvent at h
  split_ifs at h with hfinished
  · cases h
  clear hfinished
  revert h
  fun_induction nextEventLoop s with
  | case1 s hparse ih => exact fun h => (ih h).trans (unread_skipBlock_lt hparse)
  | case2 s hparse =>
    intro h
    cases hchain : s.chain <;> rw [hchain] at h <;> cases h
  | case3 | case4 => exact nofun
  | case5 s reason hparse =>
    intro h
    unfold endOfLog at h
    split_ifs at h <;> cases h
  | case6 => exact nofun
  | case7 s fragmentType payloadEnd hparse event next htake =>
    intro h
    cases h
    rw [takeFragment_record htake]
    have hend := parseBlock_fragment hparse
    refine lt_of_lt_of_le ?_ (unread_ensureLoaded_le s)
    have hheader : 0 < walFragmentHeaderBytes := by decide
    simp only [unread]
    omega
  | case8 s fragmentType payloadEnd hparse next htake ih =>
    intro h
    refine (ih h).trans ?_
    obtain ⟨chain, rfl⟩ := takeFragment_none htake
    have hend := parseBlock_fragment hparse
    refine lt_of_lt_of_le ?_ (unread_ensureLoaded_le s)
    have hheader : 0 < walFragmentHeaderBytes := by decide
    simp only [unread]
    omega

end BinaryWalReader

/-- A record a reader has found. -/
structure WalRecord where
  payload : Bytes
  startOffset : ℕ
  endOffset : ℕ
deriving DecidableEq, Repr

/-- A reader called until it gives something else than a record. -/
def BinaryWalReader.readAll [Checksum] (s : BinaryWalReader) :
    Except HawDBError (List WalRecord × BinaryWalReadEvent) :=
  match _h : s.nextEvent with
  | .error e => .error e
  | .ok (.record payload startOffset endOffset, next) =>
    next.readAll.map fun (records, stop) => (⟨payload, startOffset, endOffset⟩ :: records, stop)
  | .ok (event, _) => .ok ([], event)
termination_by s.unread
decreasing_by exact unread_lt_of_record _h

end HawDB
