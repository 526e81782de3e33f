import HawDB.Proofs.WalScan

/-!
# The block reader scans by position

Whatever its buffer holds, a reader stands at a position of the bytes after the file header
(`Represents`), and there it finds what the bytes of that position's block hold. So it follows the
scan: step for step and record for record (`Represents.readAll_scan`), and where it stops the scan
has stopped (`Represents.of_readAll`).
-/

namespace HawDB

open List Nat

variable [Checksum] {generation : UInt64}

lemma parseHeader_ne :
    parseHeader generation block blockPos streamEnded storedCrc declaredLen fragmentType
      fragmentGeneration ≠ .needNextBlock ∧
    parseHeader generation block blockPos streamEnded storedCrc declaredLen fragmentType
      fragmentGeneration ≠ .endOfStream := by
  unfold parseHeader
  dsimp only
  split_ifs <;> exact ⟨nofun, nofun⟩

lemma parseBlock_eq_fragment {block : Bytes} :
    parseBlock generation block blockPos streamEnded = .fragment fragmentType payloadEnd ↔
      payloadEnd ≤ block.length ∧ payloadEnd ≤ walBlockBytes ∧
        IsFragment generation fragmentType ((block.take payloadEnd).drop blockPos) := by
  have hheader : blockPos + walFragmentHeaderBytes ≤ payloadEnd →
      ((block.take payloadEnd).drop blockPos).take walFragmentHeaderBytes =
        (block.drop blockPos).take walFragmentHeaderBytes := by
    intro hle
    rw [drop_take, take_take, Nat.min_eq_left (by omega)]
  have hpayload : ((block.take payloadEnd).drop blockPos).drop walFragmentHeaderBytes =
      (block.drop (blockPos + walFragmentHeaderBytes)).take
        (payloadEnd - (blockPos + walFragmentHeaderBytes)) := by
    rw [drop_drop, drop_take]
  have hlength : payloadEnd ≤ block.length →
      ((block.take payloadEnd).drop blockPos).length = payloadEnd - blockPos := by
    intro hle
    rw [length_drop, length_take, Nat.min_eq_left hle]
  constructor
  · intro h
    obtain ⟨hstart, hend⟩ := parseBlock_fragment h
    specialize hheader hstart
    specialize hlength hend
    unfold parseBlock at h
    dsimp only at h
    split_ifs at h
    unfold parseHeader at h
    dsimp only at h
    split_ifs at h
    rename_i hblock _ hcrc htype hgeneration
    generalize hfields : headerFields ((block.drop blockPos).take walFragmentHeaderBytes) = fields
      at *
    obtain ⟨storedCrc, declaredLen, storedType, storedGeneration⟩ := fields
    dsimp only at *
    obtain ⟨rfl, rfl⟩ := FragmentParse.fragment.inj h
    rw [not_not] at hcrc hgeneration
    rw [hgeneration, UInt64.ofNat_toNat] at hcrc
    rw [not_or, UInt8.not_lt, UInt8.not_lt] at htype
    rw [Nat.add_sub_cancel_left] at hpayload
    refine ⟨hend, by omega, ⟨by omega, ?_, htype.1, htype.2⟩⟩
    rw [hheader, hfields, hpayload, hlength, hcrc, hgeneration]
    congr 2
    omega
  · rintro ⟨hend, hblock, hfragment⟩
    specialize hlength hend
    have hheaderPos : 0 < walFragmentHeaderBytes := by decide
    have hstart : blockPos + walFragmentHeaderBytes ≤ payloadEnd := by
      have := hfragment.length
      omega
    specialize hheader hstart
    have hfields := hfragment.header
    rw [hheader, hpayload, hlength] at hfields
    have hne : fragmentType ≠ 0 := by
      rintro rfl
      exact absurd hfragment.type_ge (by decide)
    unfold parseBlock
    dsimp only
    rw [hfields, if_neg (by omega), if_neg (by omega), if_neg (by omega)]
    unfold parseHeader
    dsimp only
    have hdeclared : blockPos + walFragmentHeaderBytes +
        (payloadEnd - blockPos - walFragmentHeaderBytes) = payloadEnd := by omega
    rw [hdeclared, if_neg fun h => hne h.2.2.1, if_neg (by omega), if_neg (by omega), UInt64.ofNat_toNat,
      if_neg, if_neg, if_neg (not_not.2 rfl)]
    · rw [not_or, UInt8.not_lt, UInt8.not_lt]
      exact ⟨hfragment.type_ge, hfragment.type_le⟩
    · rw [not_not, Nat.sub_sub]

section

variable {data : Bytes} {pos : ℕ}

lemma parseAt_eq_fragment :
    parseAt generation data pos = .fragment fragmentType payloadEnd ↔ payloadEnd ≤ walBlockBytes ∧
      FragmentAt generation data pos fragmentType
        (pos / walBlockBytes * walBlockBytes + payloadEnd) := by
  rw [parseAt, parseBlock_eq_fragment, length_blockAt]
  constructor
  · rintro ⟨hlength, hblock, hfragment⟩
    rw [drop_take_blockAt data pos hblock] at hfragment
    have hle := hfragment.header_le
    have hpos : 0 < walFragmentHeaderBytes := by decide
    exact ⟨hblock, by have := block_add_mod pos; omega, by rw [blockEnd_eq]; omega, hfragment⟩
  · rintro ⟨hblock, hlength, -, hfragment⟩
    rw [drop_take_blockAt data pos hblock]
    exact ⟨by omega, hblock, hfragment⟩

lemma parseAt_eq_needNextBlock : parseAt generation data pos = .needNextBlock ↔
    TrailerAt data pos := by
  have hmod := mod_lt_block pos
  have hblock := block_add_mod pos
  have hpos : 0 < walFragmentHeaderBytes := by decide
  have hend := blockEnd_eq pos
  have hlength := length_blockAt data pos
  have hdrop := drop_blockAt data pos
  constructor
  · intro h
    unfold parseAt parseBlock at h
    dsimp only at h
    split_ifs at h with hrem hended hshort hany hcut
    · rw [decide_eq_true_iff] at hended
      omega
    · rw [hdrop, any_eq_true] at hany
      exact ⟨by omega, by omega, fun byte hbyte => by
        by_contra hne
        exact hany ⟨byte, hbyte, decide_eq_true hne⟩⟩
    · exact absurd h parseHeader_ne.1
  · rintro ⟨hshort, hle, hzero⟩
    unfold parseAt parseBlock
    dsimp only
    rw [if_neg (by omega), if_pos (by omega), if_neg, if_neg (by omega)]
    rw [hdrop, any_eq_true]
    rintro ⟨byte, hbyte, hne⟩
    exact absurd (hzero byte hbyte) (of_decide_eq_true hne)

lemma parseAt_eq_endOfStream (h : pos ≤ data.length) :
    parseAt generation data pos = .endOfStream ↔ pos = data.length := by
  have hmod := mod_lt_block pos
  have hblock := block_add_mod pos
  have hlength := length_blockAt data pos
  constructor
  · intro hparse
    unfold parseAt parseBlock at hparse
    dsimp only at hparse
    split_ifs at hparse with hrem hended
    · rw [decide_eq_true_iff] at hended
      omega
    · exact absurd hparse parseHeader_ne.2
  · rintro rfl
    unfold parseAt parseBlock
    dsimp only
    rw [if_pos (by omega), if_pos (decide_eq_true (by omega))]

end

namespace BinaryWalReader

section

variable {s : BinaryWalReader}

lemma nextEventLoop_eq (h : s.ensureLoaded.parseFragment = parse) : s.nextEventLoop =
    match parse with
    | .needNextBlock => s.ensureLoaded.skipBlock.nextEventLoop
    | .endOfStream =>
      .ok (endOfStream s.chain, { s.ensureLoaded with finished := true, chain := none })
    | .torn reason =>
      .ok (.tornTail (s.chain.elim (s.blockOffset + s.blockPos) PendingChain.startOffset) reason,
        { s.ensureLoaded with finished := true, chain := none })
    | .corrupt reason => .ok (.corrupt (s.blockOffset + s.blockPos) reason,
        { s.ensureLoaded with finished := true })
    | .endOfLog reason => .ok (s.ensureLoaded.endOfLog (s.blockOffset + s.blockPos) reason)
    | .fragment _ _ => s.nextEventLoop := by
  cases parse with
  | fragment => rfl
  | _ =>
    rw [nextEventLoop]
    split
    all_goals
      rename_i heq
      cases heq.symm.trans h
    rfl

lemma nextEventLoop_fragment
    (h : s.ensureLoaded.parseFragment = .fragment fragmentType payloadEnd) :
    s.nextEventLoop =
      match s.ensureLoaded.takeFragment (s.blockOffset + s.blockPos) fragmentType payloadEnd
        (parseBlock_fragment h).2 with
      | .error e => .error e
      | .ok (some event, next) => .ok (event, next)
      | .ok (none, next) => next.nextEventLoop := by
  rw [nextEventLoop]
  split
  all_goals
    rename_i heq
    cases heq.symm.trans h
  split
  all_goals
    rename_i htake
    rw [htake]

end

def remaining (s : BinaryWalReader) : Bytes :=
  match s.endOffset with
  | none => s.stream
  | some limit => s.stream.take (limit - (s.blockOffset + s.block.length))

/-- A reader that is at work on some bytes. -/
structure Reads (generation : UInt64) (limit : Option ℕ) (s : BinaryWalReader)
    (chain : Option PendingChain) : Prop where
  generation_eq : s.generation = generation
  limit_eq : s.maxRecordBytes = limit
  chain_eq : s.chain = chain
  not_finished : s.finished = false

/-- A reader stands at a position of the bytes after the header. Its block is to be loaded, or
holds that part of them. -/
structure Represents (generation : UInt64) (limit : Option ℕ) (data : Bytes)
    (s : BinaryWalReader) (pos : ℕ) (chain : Option PendingChain) : Prop
    extends Reads generation limit s chain where
  exists_block : ∃ k, s.blockOffset = fileOffset (k * walBlockBytes) ∧
    pos = k * walBlockBytes + s.blockPos ∧
    s.remaining = data.drop (k * walBlockBytes + s.block.length) ∧
    (s.blockLoaded = false ∧ s.block = [] ∧ s.streamEnded = false ∨
      s.blockLoaded = true ∧ s.block = (data.drop (k * walBlockBytes)).take walBlockBytes ∧
        s.streamEnded = decide (s.block.length < walBlockBytes))

/-- A reader whose block is that of its position. -/
structure Loaded (generation : UInt64) (limit : Option ℕ) (data : Bytes)
    (s : BinaryWalReader) (pos : ℕ) (chain : Option PendingChain) : Prop
    extends Reads generation limit s chain where
  loaded : s.blockLoaded = true
  block_eq : s.block = blockAt data pos
  blockPos_eq : s.blockPos = pos % walBlockBytes
  blockOffset_eq : s.blockOffset = fileOffset (pos / walBlockBytes * walBlockBytes)
  streamEnded_eq : s.streamEnded = decide ((blockAt data pos).length < walBlockBytes)
  remaining_eq : s.remaining =
    data.drop (pos / walBlockBytes * walBlockBytes + (blockAt data pos).length)

variable {limit : Option ℕ} {data : Bytes} {s : BinaryWalReader} {pos : ℕ}
  {chain : Option PendingChain}

omit [Checksum] in
lemma Represents.offset_eq (h : Represents generation limit data s pos chain) :
    s.blockOffset + s.blockPos = fileOffset pos := by
  obtain ⟨k, hoffset, hpos, -⟩ := h.exists_block
  rw [hoffset, hpos, fileOffset, fileOffset, add_assoc]

omit [Checksum] in
lemma loadNextBlock_spec (s : BinaryWalReader) :
    s.loadNextBlock.block = s.remaining.take walBlockBytes ∧
      s.loadNextBlock.remaining = s.remaining.drop walBlockBytes := by
  unfold remaining loadNextBlock
  dsimp only
  cases s.endOffset with
  | none => exact ⟨rfl, rfl⟩
  | some limit =>
    dsimp only
    refine ⟨by rw [take_take, min_comm], ?_⟩
    rw [length_take, drop_take, ← Nat.sub_sub]
    generalize limit - (s.blockOffset + s.block.length) = m
    rcases Nat.le_total walBlockBytes m with hm | hm
    · rw [Nat.min_eq_right hm]
      rcases Nat.le_total walBlockBytes s.stream.length with hlength | hlength
      · rw [Nat.min_eq_left hlength]
      · rw [drop_eq_nil_of_le hlength, take_nil, take_nil]
    · rw [Nat.min_eq_left hm, Nat.sub_eq_zero_of_le hm, take_zero]
      rcases Nat.le_total m s.stream.length with hlength | hlength
      · rw [Nat.min_eq_left hlength, Nat.sub_self, take_zero]
      · rw [drop_eq_nil_of_le hlength, take_nil]

omit [Checksum] in
lemma loaded_loadNextBlock (h : Reads generation limit s chain)
    (hoffset : s.blockOffset + s.block.length = fileOffset (k * walBlockBytes))
    (hremaining : s.remaining = data.drop (k * walBlockBytes)) (hended : s.streamEnded = false) :
    Loaded generation limit data s.loadNextBlock (k * walBlockBytes) chain := by
  obtain ⟨hblock, hrest⟩ := loadNextBlock_spec s
  have hdiv : k * walBlockBytes / walBlockBytes = k := Nat.mul_div_cancel _ walBlockBytes_pos
  have hat : s.loadNextBlock.block = blockAt data (k * walBlockBytes) := by
    rw [hblock, hremaining, blockAt, hdiv]
  refine ⟨⟨h.generation_eq, h.limit_eq, h.chain_eq, h.not_finished⟩, rfl, hat, ?_, ?_, ?_, ?_⟩
  · exact (mul_mod_left _ _).symm
  · rw [hdiv]
    exact hoffset
  · show (s.streamEnded || decide (s.loadNextBlock.block.length < walBlockBytes)) = _
    rw [hended, Bool.false_or, hat]
  · rw [hrest, hremaining, drop_drop, hdiv, length_blockAt, hdiv]
    rcases le_total walBlockBytes (data.length - k * walBlockBytes) with hle | hle
    · rw [min_eq_left hle]
    · rw [min_eq_right hle, drop_eq_nil_of_le (by omega), drop_eq_nil_of_le (by omega)]

omit [Checksum] in
lemma Represents.ensureLoaded (h : Represents generation limit data s pos chain) :
    Loaded generation limit data s.ensureLoaded pos chain := by
  obtain ⟨k, hoffset, hpos, hremaining, ⟨hloaded, hblock, hended⟩ | ⟨hloaded, hblock, hended⟩⟩ :=
    h.exists_block
  · have hzero : s.blockPos = 0 := by
      have := s.blockPos_le
      rw [hblock, length_nil] at this
      omega
    have hlength : s.block.length = 0 := by rw [hblock, length_nil]
    rw [BinaryWalReader.ensureLoaded, hloaded, if_pos (by simp)]
    rw [hpos, hzero, add_zero]
    rw [hlength, add_zero] at hremaining
    exact loaded_loadNextBlock h.toReads (by rw [hlength, add_zero, hoffset]) hremaining hended
  · have hle := s.blockPos_le
    have hlength : s.block.length ≤ walBlockBytes := by
      rw [hblock, length_take]
      exact min_le_left _ _
    by_cases hfull : s.blockPos = s.block.length ∧ s.streamEnded = false
    · have hblockLength : s.block.length = walBlockBytes := by
        rw [hended, decide_eq_false_iff_not] at hfull
        omega
      rw [BinaryWalReader.ensureLoaded, if_pos (by simp [hfull])]
      rw [hpos, hfull.1, hblockLength, ← succ_mul]
      refine loaded_loadNextBlock h.toReads ?_ ?_ hfull.2
      · rw [hoffset, hblockLength, fileOffset, fileOffset, succ_mul, add_assoc]
      · rw [hremaining, hblockLength, succ_mul]
    · have hlt : s.blockPos < walBlockBytes := by
        rw [hended, decide_eq_false_iff_not] at hfull
        omega
      have hdiv : pos / walBlockBytes = k := by
        rw [hpos, add_comm, add_mul_div_right _ _ walBlockBytes_pos, div_eq_of_lt hlt,
          zero_add]
      have hmod : pos % walBlockBytes = s.blockPos := by
        rw [hpos, add_comm, add_mul_mod_self_right, mod_eq_of_lt hlt]
      have hat : s.block = blockAt data pos := by rw [hblock, blockAt, hdiv]
      rw [BinaryWalReader.ensureLoaded, if_neg (by simpa [hloaded] using hfull)]
      refine ⟨h.toReads, hloaded, hat, hmod.symm, by rw [hoffset, hdiv], ?_, ?_⟩
      · rw [hended, hat]
      · rw [hremaining, hat, hdiv]

omit [Checksum] in
lemma Loaded.represents (h : Loaded generation limit data s pos chain)
    (he : e ≤ s.block.length) (chain' : Option PendingChain) : Represents generation limit data
      { s with blockPos := e, blockPos_le := he, chain := chain' }
      (pos / walBlockBytes * walBlockBytes + e) chain' := by
  refine ⟨⟨h.generation_eq, h.limit_eq, rfl, h.not_finished⟩, pos / walBlockBytes,
    h.blockOffset_eq, rfl, ?_, .inr ⟨h.loaded, ?_, ?_⟩⟩
  · exact h.remaining_eq.trans (by rw [h.block_eq])
  · exact h.block_eq
  · exact h.streamEnded_eq.trans (by rw [h.block_eq])

lemma Loaded.parseFragment_eq (h : Loaded generation limit data s pos chain) :
    s.parseFragment = parseAt generation data pos := by
  rw [parseFragment, parseAt, h.generation_eq, h.block_eq, h.blockPos_eq, h.streamEnded_eq]

omit [Checksum] in
lemma Loaded.payload_eq (h : Loaded generation limit data s pos chain)
    (he : e ≤ walBlockBytes) : (s.block.take e).drop (s.blockPos + walFragmentHeaderBytes) =
      fragmentPayload data pos (pos / walBlockBytes * walBlockBytes + e) := by
  rw [h.block_eq, h.blockPos_eq, ← drop_drop, drop_take_blockAt data pos he, drop_drop]
  rfl

omit [Checksum] in
lemma enforceRecordLimit_eq_ok :
    s.enforceRecordLimit n = .ok () ↔ WithinLimit s.maxRecordBytes n := by
  unfold enforceRecordLimit WithinLimit
  cases s.maxRecordBytes with
  | none => simp
  | some l =>
    simp only [Option.some.injEq, forall_eq']
    split_ifs with hlt
    · exact ⟨nofun, fun h => absurd hlt h.not_gt⟩
    · exact ⟨fun _ => not_lt.1 hlt, fun _ => rfl⟩

section

variable {hend : payloadEnd ≤ s.block.length} {payload : Bytes}
  (hpayload : (s.block.take payloadEnd).drop (s.blockPos + walFragmentHeaderBytes) = payload)
include hpayload

omit [Checksum] in
lemma takeFragment_fresh (hchain : s.chain = none)
    (hlimit : WithinLimit s.maxRecordBytes payload.length) :
    s.takeFragment offset fragmentFull payloadEnd hend =
      .ok (some (.record payload offset (s.blockOffset + payloadEnd)),
        { s with blockPos := payloadEnd, blockPos_le := hend, chain := none }) ∧
    s.takeFragment offset fragmentFirst payloadEnd hend =
      .ok (none, { s with
        blockPos := payloadEnd, blockPos_le := hend, chain := some ⟨offset, payload⟩ }) := by
  unfold takeFragment
  dsimp only
  simp only [hpayload, hchain, enforceRecordLimit_eq_ok.2 hlimit]
  exact ⟨rfl, rfl⟩

omit [Checksum] in
lemma takeFragment_continued {open' : PendingChain} (hchain : s.chain = some open')
    (hlimit : WithinLimit s.maxRecordBytes (open'.payload ++ payload).length) :
    s.takeFragment offset fragmentMiddle payloadEnd hend =
      .ok (none, { s with
        blockPos := payloadEnd, blockPos_le := hend,
        chain := some ⟨open'.startOffset, open'.payload ++ payload⟩ }) ∧
    s.takeFragment offset fragmentLast payloadEnd hend =
      .ok (some (.record (open'.payload ++ payload) open'.startOffset (s.blockOffset + payloadEnd)),
        { s with blockPos := payloadEnd, blockPos_le := hend, chain := none }) := by
  unfold takeFragment
  dsimp only
  simp only [hpayload, hchain, enforceRecordLimit_eq_ok.2 hlimit]
  exact ⟨rfl, rfl⟩

end

/-- What `next_event` goes on with after a step: itself, or the record. -/
def resume : Option WalRecord → BinaryWalReader →
    Except HawDBError (BinaryWalReadEvent × BinaryWalReader)
  | none, s => s.nextEventLoop
  | some record, s => .ok (.record record.payload record.startOffset record.endOffset, s)

section

variable (h : Represents generation limit data s pos chain)

include h

lemma Represents.fragment {next : ℕ}
    (hfragment : FragmentAt generation data pos fragmentType next) :
    ∃ payloadEnd hend,
      next = pos / walBlockBytes * walBlockBytes + payloadEnd ∧ payloadEnd ≤ walBlockBytes ∧
      s.nextEventLoop =
        match s.ensureLoaded.takeFragment (fileOffset pos) fragmentType payloadEnd hend with
        | .error e => .error e
        | .ok (some event, next) => .ok (event, next)
        | .ok (none, next) => next.nextEventLoop := by
  have hle := hfragment.isFragment.header_le
  have hblock := block_add_mod pos
  have hend := blockEnd_eq pos
  have hnext : next = pos / walBlockBytes * walBlockBytes +
      (next - pos / walBlockBytes * walBlockBytes) := by omega
  have hbound : next - pos / walBlockBytes * walBlockBytes ≤ walBlockBytes := by
    have := hfragment.le_blockEnd
    omega
  have hparse : s.ensureLoaded.parseFragment =
      .fragment fragmentType (next - pos / walBlockBytes * walBlockBytes) := by
    rw [h.ensureLoaded.parseFragment_eq, parseAt_eq_fragment, ← hnext]
    exact ⟨hbound, hfragment⟩
  refine ⟨_, (parseBlock_fragment hparse).2, hnext, hbound, ?_⟩
  rw [nextEventLoop_fragment hparse, h.offset_eq]

lemma Represents.step (hstep : ScanStep generation limit data pos chain ended pos' chain') :
    ∃ s', Represents generation limit data s' pos' chain' ∧ s.nextEventLoop = resume ended s' := by
  have hloaded := h.ensureLoaded
  have hoffset : ∀ e, s.ensureLoaded.blockOffset + e =
      fileOffset (pos / walBlockBytes * walBlockBytes + e) := by
    intro e
    rw [hloaded.blockOffset_eq, fileOffset, fileOffset, add_assoc]
  cases hstep with
  | skip htrailer =>
    have hparse : s.ensureLoaded.parseFragment = .needNextBlock := by
      rw [hloaded.parseFragment_eq, parseAt_eq_needNextBlock]
      exact htrailer
    refine ⟨s.ensureLoaded.skipBlock, ?_, nextEventLoop_eq hparse⟩
    have hend : blockEnd pos =
        pos / walBlockBytes * walBlockBytes + s.ensureLoaded.block.length := by
      have hle := htrailer.le_length
      rw [blockEnd_eq] at hle ⊢
      rw [hloaded.block_eq, length_blockAt]
      omega
    have hskip : s.ensureLoaded.skipBlock = { s.ensureLoaded with
        blockPos := s.ensureLoaded.block.length, blockPos_le := le_rfl, chain } := by
      rw [skipBlock, ← hloaded.chain_eq]
    rw [hend, hskip]
    exact hloaded.represents le_rfl chain
  | full hfragment hlimit =>
    obtain ⟨e, hend, rfl, he, hloop⟩ := h.fragment hfragment
    rw [(takeFragment_fresh (hloaded.payload_eq he) hloaded.chain_eq
      (by rwa [hloaded.limit_eq])).1, hoffset] at hloop
    exact ⟨_, hloaded.represents hend _, hloop⟩
  | first hfragment hlimit =>
    obtain ⟨e, hend, rfl, he, hloop⟩ := h.fragment hfragment
    rw [(takeFragment_fresh (hloaded.payload_eq he) hloaded.chain_eq
      (by rwa [hloaded.limit_eq])).2] at hloop
    exact ⟨_, hloaded.represents hend _, hloop⟩
  | middle hfragment hlimit =>
    obtain ⟨e, hend, rfl, he, hloop⟩ := h.fragment hfragment
    rw [(takeFragment_continued (hloaded.payload_eq he) hloaded.chain_eq
      (by rwa [hloaded.limit_eq])).1] at hloop
    exact ⟨_, hloaded.represents hend _, hloop⟩
  | last hfragment hlimit =>
    obtain ⟨e, hend, rfl, he, hloop⟩ := h.fragment hfragment
    rw [(takeFragment_continued (hloaded.payload_eq he) hloaded.chain_eq
      (by rwa [hloaded.limit_eq])).2, hoffset] at hloop
    exact ⟨_, hloaded.represents hend _, hloop⟩

lemma Represents.stop (hstop : ScanStop generation data pos chain event) :
    ∃ s', s.nextEventLoop = .ok (event, s') := by
  have hparse := h.ensureLoaded.parseFragment_eq
  cases hstop with
  | eof hend | incomplete hend =>
    have hloop := nextEventLoop_eq (hparse.trans hend)
    rw [h.chain_eq] at hloop
    exact ⟨_, hloop⟩
  | torn htorn =>
    have hloop := nextEventLoop_eq (hparse.trans htorn)
    rw [h.chain_eq, h.offset_eq] at hloop
    exact ⟨_, hloop⟩

lemma Represents.nextEvent_eq : s.nextEvent = s.nextEventLoop := by
  rw [nextEvent, h.not_finished, if_neg (by simp)]

end

variable {next : BinaryWalReader}

lemma readAll_record {startOffset endOffset : ℕ}
    (h : s.nextEvent = .ok (.record payload startOffset endOffset, next)) :
    s.readAll = next.readAll.map fun (records, stop) =>
      (⟨payload, startOffset, endOffset⟩ :: records, stop) := by
  rw [readAll]
  split
  · rename_i heq
    cases heq.symm.trans h
  · rename_i heq
    cases heq.symm.trans h
    rfl
  · rename_i hne heq
    cases heq.symm.trans h
    exact (hne _ _ _ rfl).elim

lemma readAll_stop (h : s.nextEvent = .ok (event, next))
    (hevent : ∀ payload startOffset endOffset, event ≠ .record payload startOffset endOffset) :
    s.readAll = .ok ([], event) := by
  rw [readAll]
  split
  · rename_i heq
    cases heq.symm.trans h
  · rename_i heq
    cases heq.symm.trans h
    exact absurd rfl (hevent _ _ _)
  · rename_i heq
    cases heq.symm.trans h
    rfl

lemma readAll_eq_cons {record : WalRecord} (h : s.readAll = .ok (record :: records, event)) :
    ∃ next, s.nextEvent = .ok (.record record.payload record.startOffset record.endOffset, next) ∧
      next.readAll = .ok (records, event) := by
  rw [readAll] at h
  split at h
  · cases h
  · rename_i next hnext
    obtain ⟨⟨rest, stop⟩, hrest, heq⟩ := map_eq_ok.1 h
    cases heq
    exact ⟨next, hnext, hrest⟩
  · cases h

lemma readAll_eq_nil (h : s.readAll = .ok ([], event)) :
    ∃ next, s.nextEvent = .ok (event, next) := by
  rw [readAll] at h
  split at h
  · cases h
  · obtain ⟨_, -, heq⟩ := map_eq_ok.1 h
    cases heq
  · rename_i next _ hnext
    cases h
    exact ⟨next, hnext⟩

lemma readAll_finished (h : s.finished = true) : s.readAll = .ok ([], .eof) :=
  readAll_stop (by rw [nextEvent, if_pos h]) nofun

lemma Represents.readAll_scan (hscan : Scan generation limit data pos chain records pos' chain') :
    ∀ s, Represents generation limit data s pos chain →
      ∃ s', Represents generation limit data s' pos' chain' ∧
        s.readAll = s'.readAll.map fun (rest, stop) => (records ++ rest, stop) := by
  induction hscan with
  | refl pos chain =>
    intro s h
    refine ⟨s, h, ?_⟩
    cases s.readAll <;> rfl
  | @step pos pos' pos'' chain chain' chain'' ended records hstep _ ih =>
    intro s h
    obtain ⟨mid, hmid, hloop⟩ := h.step hstep
    obtain ⟨s', hs', hread⟩ := ih mid hmid
    refine ⟨s', hs', ?_⟩
    cases ended with
    | none =>
      have hsame : s.readAll = mid.readAll := by
        rw [readAll, readAll, h.nextEvent_eq, hmid.nextEvent_eq, hloop]
        rfl
      rw [hsame, hread]
      rfl
    | some record =>
      rw [readAll_record (h.nextEvent_eq.trans hloop), hread]
      cases s'.readAll <;> rfl

lemma Represents.readAll_stop (h : Represents generation limit data s pos chain)
    (hstop : ScanStop generation data pos chain event) : s.readAll = .ok ([], event) := by
  obtain ⟨s', hloop⟩ := h.stop hstop
  refine BinaryWalReader.readAll_stop (h.nextEvent_eq.trans hloop) ?_
  rintro payload startOffset endOffset rfl
  cases hstop

lemma Represents.readAll_eq (h : Represents generation limit data s pos chain)
    (hscan : Scan generation limit data pos chain records pos' chain')
    (hstop : ScanStop generation data pos' chain' event) : s.readAll = .ok (records, event) := by
  obtain ⟨s', hs', hread⟩ := readAll_scan hscan s h
  rw [hread, hs'.readAll_stop hstop]
  show Except.ok (records ++ [], event) = _
  rw [append_nil]

omit [Checksum] in
lemma fragmentType_cases (hge : fragmentFull ≤ fragmentType) (hle : fragmentType ≤ fragmentLast) :
    fragmentType = fragmentFull ∨
      fragmentType = fragmentFirst ∨ fragmentType = fragmentMiddle ∨
        fragmentType = fragmentLast := by
  have hge' : 1 ≤ fragmentType.toNat := UInt8.le_iff_toNat_le.1 hge
  have hle' : fragmentType.toNat ≤ 4 := UInt8.le_iff_toNat_le.1 hle
  simp only [← UInt8.toNat_inj]
  show fragmentType.toNat = 1 ∨ fragmentType.toNat = 2 ∨ fragmentType.toNat = 3 ∨
    fragmentType.toNat = 4
  omega

omit [Checksum] in
lemma enforceRecordLimit_error (h : ¬WithinLimit s.maxRecordBytes n) :
    ∃ e, s.enforceRecordLimit n = .error e := by
  cases hresult : s.enforceRecordLimit n with
  | error e => exact ⟨e, rfl⟩
  | ok => exact absurd (enforceRecordLimit_eq_ok.1 hresult) h

lemma Loaded.takeFragment_cases {next offset payloadEnd : ℕ} {hend : payloadEnd ≤ s.block.length}
    (h : Loaded generation limit data s pos chain)
    (hfragment : FragmentAt generation data pos fragmentType next)
    (hpayload : (s.block.take payloadEnd).drop (s.blockPos + walFragmentHeaderBytes) =
      fragmentPayload data pos next) :
    (∃ ended pos' chain', ScanStep generation limit data pos chain ended pos' chain') ∨
    (∃ reason s', s.takeFragment offset fragmentType payloadEnd hend =
      .ok (some (.corrupt offset reason), s')) ∨
    ∃ e, s.takeFragment offset fragmentType payloadEnd hend = .error e := by
  have hchain := h.chain_eq
  have hlimit := h.limit_eq
  unfold takeFragment
  dsimp only
  rw [hpayload, hchain]
  rcases fragmentType_cases hfragment.isFragment.type_ge hfragment.isFragment.type_le
    with rfl | rfl | rfl | rfl
  · rw [if_pos rfl]
    cases chain with
    | some => exact .inr (.inl ⟨_, _, rfl⟩)
    | none =>
      by_cases hlength : WithinLimit limit (fragmentPayload data pos next).length
      · exact .inl ⟨_, _, _, .full hfragment hlength⟩
      · obtain ⟨e, he⟩ := enforceRecordLimit_error (hlimit.symm ▸ hlength)
        rw [he]
        exact .inr (.inr ⟨e, rfl⟩)
  · rw [if_neg (by decide), if_pos rfl]
    cases chain with
    | some => exact .inr (.inl ⟨_, _, rfl⟩)
    | none =>
      by_cases hlength : WithinLimit limit (fragmentPayload data pos next).length
      · exact .inl ⟨_, _, _, .first hfragment hlength⟩
      · obtain ⟨e, he⟩ := enforceRecordLimit_error (hlimit.symm ▸ hlength)
        rw [he]
        exact .inr (.inr ⟨e, rfl⟩)
  all_goals
    rw [if_neg (by decide), if_neg (by decide)]
    cases chain with
    | none => exact .inr (.inl ⟨_, _, rfl⟩)
    | some chain =>
      by_cases hlength : WithinLimit limit (chain.payload ++ fragmentPayload data pos next).length
      · first
        | exact .inl ⟨_, _, _, .middle hfragment hlength⟩
        | exact .inl ⟨_, _, _, .last hfragment hlength⟩
      obtain ⟨e, he⟩ := enforceRecordLimit_error (hlimit.symm ▸ hlength)
      dsimp only
      rw [he]
      exact .inr (.inr ⟨e, rfl⟩)

lemma Represents.cases (h : Represents generation limit data s pos chain) :
    (∃ ended pos' chain', ScanStep generation limit data pos chain ended pos' chain') ∨
    (∃ event, ScanStop generation data pos chain event) ∨
    (∃ offset reason s', s.nextEventLoop = .ok (.corrupt offset reason, s')) ∨
    ∃ e, s.nextEventLoop = .error e := by
  have hloaded := h.ensureLoaded
  have hparse := hloaded.parseFragment_eq
  cases hat : parseAt generation data pos with
  | needNextBlock => exact .inl ⟨_, _, _, .skip (parseAt_eq_needNextBlock.1 hat)⟩
  | endOfStream =>
    cases chain with
    | none => exact .inr (.inl ⟨_, .eof hat⟩)
    | some chain => exact .inr (.inl ⟨_, .incomplete hat⟩)
  | torn reason => exact .inr (.inl ⟨_, .torn hat⟩)
  | corrupt reason =>
    exact .inr (.inr (.inl ⟨_, _, _, nextEventLoop_eq (hparse.trans hat)⟩))
  | endOfLog reason =>
    have hloop := nextEventLoop_eq (hparse.trans hat)
    unfold endOfLog at hloop
    split_ifs at hloop <;> exact .inr (.inr (.inl ⟨_, _, _, hloop⟩))
  | fragment fragmentType payloadEnd =>
    obtain ⟨hbound, hfragment⟩ := parseAt_eq_fragment.1 hat
    have hloop := nextEventLoop_fragment (hparse.trans hat)
    rcases hloaded.takeFragment_cases hfragment (hloaded.payload_eq hbound) with
      hstep | ⟨reason, s', htake⟩ | ⟨e, htake⟩
    · exact .inl hstep
    · rw [htake] at hloop
      exact .inr (.inr (.inl ⟨_, _, _, hloop⟩))
    · rw [htake] at hloop
      exact .inr (.inr (.inr ⟨_, hloop⟩))

lemma Represents.of_nextEvent {s : BinaryWalReader} {pos : ℕ} {chain : Option PendingChain}
    (h : Represents generation limit data s pos chain) (hnext : s.nextEvent = .ok (event, next)) :
    (∃ record pos', event = .record record.payload record.startOffset record.endOffset ∧
      record.endOffset = fileOffset pos' ∧ Scan generation limit data pos chain [record] pos' none ∧
      Represents generation limit data next pos' none) ∨
    (∃ pos' chain', Scan generation limit data pos chain [] pos' chain' ∧
      ScanStop generation data pos' chain' event) ∨
    ∃ offset reason, event = .corrupt offset reason := by
  rw [h.nextEvent_eq] at hnext
  rcases h.cases with ⟨ended, mid, midChain, hstep⟩ | ⟨event', hstop⟩ | ⟨offset, reason, s', hloop⟩ |
    ⟨e, hloop⟩
  · obtain ⟨s', hs', hloop⟩ := h.step hstep
    rw [hloop] at hnext
    cases ended with
    | none =>
      have hlt := hstep.lt
      have hle := hstep.le_length
      rcases of_nextEvent hs' (hs'.nextEvent_eq.trans hnext) with
        ⟨record, pos', hevent, hend, hscan, hnext'⟩ | ⟨pos', chain', hscan, hstop⟩ | hcorrupt
      · exact .inl ⟨record, pos', hevent, hend, .step hstep hscan, hnext'⟩
      · exact .inr (.inl ⟨pos', chain', .step hstep hscan, hstop⟩)
      · exact .inr (.inr hcorrupt)
    | some record =>
      cases hnext
      obtain ⟨hend, rfl⟩ := hstep.of_some
      exact .inl ⟨record, mid, rfl, hend, .step hstep (.refl _ _), hs'⟩
  · obtain ⟨s', hloop⟩ := h.stop hstop
    rw [hloop] at hnext
    cases hnext
    exact .inr (.inl ⟨pos, chain, .refl _ _, hstop⟩)
  · rw [hloop] at hnext
    cases hnext
    exact .inr (.inr ⟨_, _, rfl⟩)
  · rw [hloop] at hnext
    cases hnext
termination_by data.length - pos

lemma Represents.of_readAll {s : BinaryWalReader} {pos : ℕ} {chain : Option PendingChain}
    (h : Represents generation limit data s pos chain) (hread : s.readAll = .ok (records, event)) :
    ∃ pos' chain', Scan generation limit data pos chain records pos' chain' ∧
      (ScanStop generation data pos' chain' event ∨
        ∃ offset reason, event = .corrupt offset reason) := by
  rcases h.cases with ⟨ended, mid, midChain, hstep⟩ | ⟨event', hstop⟩ | ⟨offset, reason, s', hloop⟩ |
    ⟨e, hloop⟩
  · obtain ⟨s', hs', hread'⟩ := readAll_scan (.step hstep (.refl _ _)) s h
    rw [hread, eq_comm, map_eq_ok] at hread'
    obtain ⟨⟨rest, stop⟩, hrest, heq⟩ := hread'
    cases heq
    have hlt := hstep.lt
    have hle := hstep.le_length
    obtain ⟨pos', chain', hscan, hstop⟩ := of_readAll hs' hrest
    refine ⟨pos', chain', ?_, hstop⟩
    rw [append_nil]
    exact .step hstep hscan
  · rw [h.readAll_stop hstop] at hread
    cases hread
    exact ⟨pos, chain, .refl _ _, .inl hstop⟩
  · rw [BinaryWalReader.readAll_stop (h.nextEvent_eq.trans hloop) nofun] at hread
    cases hread
    exact ⟨pos, chain, .refl _ _, .inr ⟨_, _, rfl⟩⟩
  · have hnext := h.nextEvent_eq.trans hloop
    rw [readAll] at hread
    split at hread
    · cases hread
    all_goals
      rename_i heq
      cases heq.symm.trans hnext
termination_by data.length - pos

end BinaryWalReader

end HawDB
