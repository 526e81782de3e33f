import HawDB.WalFrame

/-!
# Scanning a log by position

What a reader does, told without blocks and buffers: at a position of the bytes after the file
header stands a fragment, a trailer to pass over, or something that stops it. A fragment ends a
record, opens a chain or goes on with one. `Scan` is any number of such steps, with the records
they end.
-/

namespace HawDB

variable [Checksum]

/-- The first position of the block after a position's. -/
def blockEnd (pos : ℕ) : ℕ := (pos / walBlockBytes + 1) * walBlockBytes

/-- The bytes of a fragment. -/
structure IsFragment (generation : UInt64) (fragmentType : UInt8) (bytes : Bytes) : Prop where
  length : walFragmentHeaderBytes ≤ bytes.length
  header : headerFields (bytes.take walFragmentHeaderBytes) =
    ((maskedFragmentCrc fragmentType generation (bytes.drop walFragmentHeaderBytes)).toNat,
      bytes.length - walFragmentHeaderBytes, fragmentType, generation.toNat)
  type_ge : fragmentFull ≤ fragmentType
  type_le : fragmentType ≤ fragmentLast

/-- A fragment stands from a position to another of the same block. -/
structure FragmentAt (generation : UInt64) (data : Bytes) (pos : ℕ) (fragmentType : UInt8)
    (next : ℕ) : Prop where
  le_length : next ≤ data.length
  le_blockEnd : next ≤ blockEnd pos
  isFragment : IsFragment generation fragmentType ((data.take next).drop pos)

omit [Checksum] in
/-- The rest of a position's block is a trailer. -/
structure TrailerAt (data : Bytes) (pos : ℕ) : Prop where
  short : blockEnd pos < pos + walFragmentHeaderBytes
  le_length : blockEnd pos ≤ data.length
  zero : ∀ byte ∈ (data.take (blockEnd pos)).drop pos, byte = 0

/-- A record of that length is not too long. -/
def WithinLimit (limit : Option ℕ) (length : ℕ) : Prop := ∀ l, limit = some l → length ≤ l

/-- What a fragment holds of its record. -/
def fragmentPayload (data : Bytes) (pos next : ℕ) : Bytes :=
  (data.take next).drop (pos + walFragmentHeaderBytes)

def fileOffset (pos : ℕ) : ℕ := walBinaryFileHeaderBytes + pos

/-- One step from a position and a chain to the next, with the record it ends. -/
inductive ScanStep (generation : UInt64) (limit : Option ℕ) (data : Bytes) :
    ℕ → Option PendingChain → Option WalRecord → ℕ → Option PendingChain → Prop
  | skip {pos : ℕ} {chain : Option PendingChain} (h : TrailerAt data pos) :
    ScanStep generation limit data pos chain none (blockEnd pos) chain
  | full {pos next : ℕ} (h : FragmentAt generation data pos fragmentFull next)
      (hlimit : WithinLimit limit (fragmentPayload data pos next).length) :
    ScanStep generation limit data pos none
      (some ⟨fragmentPayload data pos next, fileOffset pos, fileOffset next⟩) next none
  | first {pos next : ℕ} (h : FragmentAt generation data pos fragmentFirst next)
      (hlimit : WithinLimit limit (fragmentPayload data pos next).length) :
    ScanStep generation limit data pos none none next
      (some ⟨fileOffset pos, fragmentPayload data pos next⟩)
  | middle {pos next : ℕ} {chain : PendingChain}
      (h : FragmentAt generation data pos fragmentMiddle next)
      (hlimit : WithinLimit limit (chain.payload ++ fragmentPayload data pos next).length) :
    ScanStep generation limit data pos (some chain) none next
      (some ⟨chain.startOffset, chain.payload ++ fragmentPayload data pos next⟩)
  | last {pos next : ℕ} {chain : PendingChain}
      (h : FragmentAt generation data pos fragmentLast next)
      (hlimit : WithinLimit limit (chain.payload ++ fragmentPayload data pos next).length) :
    ScanStep generation limit data pos (some chain)
      (some ⟨chain.payload ++ fragmentPayload data pos next, chain.startOffset, fileOffset next⟩)
      next none

/-- Steps one after another, with the records they end. -/
inductive Scan (generation : UInt64) (limit : Option ℕ) (data : Bytes) :
    ℕ → Option PendingChain → List WalRecord → ℕ → Option PendingChain → Prop
  | refl (pos : ℕ) (chain : Option PendingChain) : Scan generation limit data pos chain [] pos chain
  | step {pos pos' pos'' : ℕ} {chain chain' chain'' : Option PendingChain}
      {ended : Option WalRecord} {records : List WalRecord}
      (head : ScanStep generation limit data pos chain ended pos' chain')
      (tail : Scan generation limit data pos' chain' records pos'' chain'') :
    Scan generation limit data pos chain (ended.toList ++ records) pos'' chain''

def blockAt (data : Bytes) (pos : ℕ) : Bytes :=
  (data.drop (pos / walBlockBytes * walBlockBytes)).take walBlockBytes

/-- What a reader finds at a position. -/
def parseAt (generation : UInt64) (data : Bytes) (pos : ℕ) : FragmentParse :=
  parseBlock generation (blockAt data pos) (pos % walBlockBytes)
    (decide ((blockAt data pos).length < walBlockBytes))

/-- A scan stops: at the end of the bytes, or where they are cut short. -/
inductive ScanStop (generation : UInt64) (data : Bytes) (pos : ℕ) :
    Option PendingChain → BinaryWalReadEvent → Prop
  | eof (h : parseAt generation data pos = .endOfStream) : ScanStop generation data pos none .eof
  | incomplete {chain : PendingChain} (h : parseAt generation data pos = .endOfStream) :
    ScanStop generation data pos (some chain)
      (.tornTail chain.startOffset "fragment chain is incomplete at end of file")
  | torn {chain : Option PendingChain} {reason : String}
      (h : parseAt generation data pos = .torn reason) :
    ScanStop generation data pos chain
      (.tornTail (chain.elim (fileOffset pos) PendingChain.startOffset) reason)

/-- The zeros that fill up a block in which no fragment can start. -/
def trailerBytes (pos : ℕ) : ℕ :=
  if walBlockBytes - pos % walBlockBytes < walFragmentHeaderBytes then
    walBlockBytes - pos % walBlockBytes
  else 0

def framedRecord (generation : UInt64) (payload : Bytes) (pos : ℕ) : WalRecord :=
  ⟨payload, fileOffset (pos + trailerBytes pos),
    fileOffset (pos + (frameBinaryWalRecord generation payload pos).length)⟩

/-- Payloads framed one after another, from a position on. -/
def framedLog (generation : UInt64) : List Bytes → ℕ → Bytes
  | [], _ => []
  | payload :: rest, pos =>
    let frame := frameBinaryWalRecord generation payload pos
    frame ++ framedLog generation rest (pos + frame.length)

/-- The records of such a log. -/
def framedRecords (generation : UInt64) : List Bytes → ℕ → List WalRecord
  | [], _ => []
  | payload :: rest, pos =>
    framedRecord generation payload pos ::
      framedRecords generation rest (pos + (frameBinaryWalRecord generation payload pos).length)

def IsBoundary (records : List WalRecord) (offset : ℕ) : Prop :=
  offset = walBinaryFileHeaderBytes ∨ ∃ record ∈ records, record.endOffset = offset

def recordsBetween (records : List WalRecord) (fromOffset toOffset : ℕ) : List WalRecord :=
  records.filter fun record =>
    decide (fromOffset ≤ record.startOffset ∧ record.endOffset ≤ toOffset)

/-- So many bytes of a record reach the log before a crash, and a torn tail is cut off. Beside the
log stand the payloads written whole. -/
def writeOrCrash (generation : UInt64) (s : Bytes × List Bytes) (write : Bytes × ℕ) :
    Bytes × List Bytes :=
  let frame := frameBinaryWalRecord generation write.1 (s.1.length - walBinaryFileHeaderBytes)
  let file := s.1 ++ frame.take write.2
  (match (BinaryWalReader.openFile file generation none).readAll with
    | .ok (_, .tornTail v _) => file.take v
    | _ => file,
  if frame.length ≤ write.2 then s.2 ++ [write.1] else s.2)

end HawDB
