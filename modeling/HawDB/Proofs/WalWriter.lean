import HawDB.Proofs.WalFrame

/-!
# The writer and the scan

A record that is framed at the end of some bytes is one record for the scan, whatever stands behind
it (`scan_frame`). A frame that is cut ends no record: the scan stops in it, at its start or where
its first fragment would have been (`scan_frame_cut`).
-/

namespace HawDB

open List Nat

variable [Checksum] {generation : UInt64}

section

variable {chunk : Bytes}

@[simp] lemma length_encodeFragment (generation : UInt64) (fragmentType : UInt8)
    (chunk : Bytes) : (encodeFragment generation fragmentType chunk).length =
      walFragmentHeaderBytes + chunk.length := by
  simp only [encodeFragment, length_append, length_leBytes, length_singleton]
  rfl

lemma drop_encodeFragment :
    (encodeFragment generation fragmentType chunk).drop walFragmentHeaderBytes = chunk := by
  rw [encodeFragment]
  refine drop_left' ?_
  simp only [length_append, length_leBytes, length_singleton]
  rfl

omit [Checksum] in
lemma headerFields_append {crc length stored : Bytes} (hcrc : crc.length = 4)
    (hlength : length.length = 2) (hstored : stored.length = 8) :
    headerFields (crc ++ (length ++ ([fragmentType] ++ stored))) =
      (leNat crc, leNat length, fragmentType, leNat stored) := by
  have hgeneration : (crc ++ (length ++ ([fragmentType] ++ stored))).drop 7 = stored := by
    rw [← append_assoc, ← append_assoc]
    exact drop_left' (by simp [hcrc, hlength])
  have htype : (crc ++ (length ++ ([fragmentType] ++ stored))).getD 6 0 = fragmentType := by
    simp [getD_eq_getElem?_getD, getElem?_append, hcrc, hlength]
  rw [headerFields, hgeneration, htype, take_left' hcrc, drop_left' hcrc,
    take_left' hlength, take_of_length_le hstored.le]

lemma headerFields_encodeFragment (hchunk : chunk.length < walBlockBytes) :
    headerFields ((encodeFragment generation fragmentType chunk).take walFragmentHeaderBytes) =
      ((maskedFragmentCrc fragmentType generation chunk).toNat, chunk.length, fragmentType,
        generation.toNat) := by
  have hcrc : (maskedFragmentCrc fragmentType generation chunk).toNat < 256 ^ 4 := UInt32.toNat_lt _
  have hlength : chunk.length < 256 ^ 2 := hchunk.trans (by decide)
  have hgeneration : generation.toNat < 256 ^ 8 := UInt64.toNat_lt _
  have htake : (encodeFragment generation fragmentType chunk).take walFragmentHeaderBytes =
      leBytes 4 (maskedFragmentCrc fragmentType generation chunk).toNat ++
        (leBytes 2 chunk.length ++ ([fragmentType] ++ leBytes 8 generation.toNat)) := by
    rw [encodeFragment, take_left' (by simp [walFragmentHeaderBytes])]
    simp only [append_assoc]
  rw [htake, headerFields_append (length_leBytes _ _) (length_leBytes _ _) (length_leBytes _ _),
    leNat_leBytes hcrc, leNat_leBytes hlength, leNat_leBytes hgeneration]

lemma isFragment_encodeFragment (hchunk : chunk.length < walBlockBytes)
    (hge : fragmentFull ≤ fragmentType) (hle : fragmentType ≤ fragmentLast) :
    IsFragment generation fragmentType (encodeFragment generation fragmentType chunk) := by
  refine ⟨?_, ?_, hge, hle⟩
  · rw [length_encodeFragment]
    exact le_add_right _ _
  · rw [headerFields_encodeFragment hchunk, drop_encodeFragment, length_encodeFragment,
      Nat.add_sub_cancel_left]

omit [Checksum] in
lemma fragmentTypeOf_range (first last : Bool) :
    fragmentFull ≤ fragmentTypeOf first last ∧ fragmentTypeOf first last ≤ fragmentLast := by
  cases first <;> cases last <;> decide

end

section

variable {chunk before tail : Bytes}

lemma fragmentAt_append (hroom : before.length % walBlockBytes + walFragmentHeaderBytes +
      chunk.length ≤ walBlockBytes)
    (hrange : fragmentFull ≤ fragmentType ∧ fragmentType ≤ fragmentLast) :
    FragmentAt generation (before ++ (encodeFragment generation fragmentType chunk ++ tail))
      before.length fragmentType (before.length + (walFragmentHeaderBytes + chunk.length)) := by
  have hheader : 0 < walFragmentHeaderBytes := by decide
  have hblock := block_add_mod before.length
  refine ⟨?_, ?_, ?_⟩
  · simp only [length_append, length_encodeFragment]
    omega
  · rw [blockEnd_eq]
    omega
  · rw [← length_encodeFragment generation fragmentType chunk,
      take_length_add_append, drop_left, take_left]
    exact isFragment_encodeFragment (by omega) hrange.1 hrange.2

lemma fragmentPayload_append (generation : UInt64) (fragmentType : UInt8)
    (chunk before tail : Bytes) :
    fragmentPayload (before ++ (encodeFragment generation fragmentType chunk ++ tail))
      before.length (before.length + (walFragmentHeaderBytes + chunk.length)) = chunk := by
  rw [fragmentPayload, ← drop_drop, ← length_encodeFragment generation fragmentType chunk,
    take_length_add_append, drop_left, take_left, drop_encodeFragment]

end

/-- What a chain holds already, and where it starts. -/
def pendingPayload (chain : Option PendingChain) : Bytes := chain.elim [] PendingChain.payload

def pendingStart (chain : Option PendingChain) (pos : ℕ) : ℕ :=
  chain.elim (fileOffset pos) PendingChain.startOffset

omit [Checksum] in
lemma pendingPayload_some (pending : PendingChain) :
    pendingPayload (some pending) = pending.payload := rfl

section

variable {limit : Option ℕ} {chunk before tail : Bytes} {chain : Option PendingChain}
  (hroom : before.length % walBlockBytes + walFragmentHeaderBytes + chunk.length ≤ walBlockBytes)
  (hlimit : WithinLimit limit (pendingPayload chain ++ chunk).length)
include hroom hlimit

lemma scanStep_chunk (last : Bool) :
    ScanStep generation limit
      (before ++ (encodeFragment generation (fragmentTypeOf chain.isNone last) chunk ++ tail))
      before.length chain
      (cond last (some ⟨pendingPayload chain ++ chunk, pendingStart chain before.length,
        fileOffset (before.length + (walFragmentHeaderBytes + chunk.length))⟩) none)
      (before.length + (walFragmentHeaderBytes + chunk.length))
      (cond last none (some ⟨pendingStart chain before.length, pendingPayload chain ++ chunk⟩)) := by
  have hfragment : FragmentAt generation
      (before ++ (encodeFragment generation (fragmentTypeOf chain.isNone last) chunk ++ tail))
      _ _ _ := fragmentAt_append hroom (fragmentTypeOf_range ..)
  have hpayload :=
    fragmentPayload_append generation (fragmentTypeOf chain.isNone last) chunk before tail
  rcases chain with _ | chain <;> cases last
  · have hstep : ScanStep generation limit _ _ _ _ _ _ := .first hfragment (by rwa [hpayload])
    rwa [hpayload] at hstep
  · have hstep : ScanStep generation limit _ _ _ _ _ _ := .full hfragment (by rwa [hpayload])
    rwa [hpayload] at hstep
  · have hstep : ScanStep generation limit _ _ (some chain) _ _ _ :=
      .middle hfragment (by rwa [hpayload])
    rwa [hpayload] at hstep
  · have hstep : ScanStep generation limit _ _ (some chain) _ _ _ :=
      .last hfragment (by rwa [hpayload])
    rwa [hpayload] at hstep

end

/-- Whether a record is in its first fragment, and the room there is in the block. -/
structure WritesAt (first : Bool) (blockPos : ℕ) (before : Bytes) (chain : Option PendingChain) :
    Prop where
  first_eq : first = chain.isNone
  blockPos_eq : blockPos = before.length % walBlockBytes
  room : blockPos + walFragmentHeaderBytes ≤ walBlockBytes

omit [Checksum] in
lemma WithinLimit.mono (h : WithinLimit limit n) (hle : m ≤ n) :
    WithinLimit limit m := fun l hl => hle.trans (h l hl)

lemma WritesAt.more {before chunk : Bytes} (h : WritesAt first blockPos before chain)
    (generation : UInt64) (fragmentType : UInt8)
    (hchunk : chunk.length = walBlockBytes - blockPos - walFragmentHeaderBytes)
    (start : ℕ) (pending : Bytes) :
    WritesAt false 0 (before ++ encodeFragment generation fragmentType chunk)
      (some ⟨start, pending⟩) := by
  obtain ⟨-, rfl, hroom⟩ := h
  refine ⟨rfl, ?_, by decide⟩
  have hblock := block_add_mod before.length
  have hfull : before.length + (walFragmentHeaderBytes + chunk.length) =
      (before.length / walBlockBytes + 1) * walBlockBytes := by
    rw [succ_mul]
    omega
  rw [length_append, length_encodeFragment, hfull, mul_mod_left]

lemma frameLoop_cases (generation : UInt64)
    {chain : Option PendingChain} (remaining : Bytes) (h : WritesAt first blockPos before chain) :
    (blockPos + walFragmentHeaderBytes + remaining.length ≤ walBlockBytes ∧
      frameLoop generation first blockPos remaining =
        encodeFragment generation (fragmentTypeOf chain.isNone true) remaining) ∨
    ∃ chunk rest, chunk ++ rest = remaining ∧
      chunk.length = walBlockBytes - blockPos - walFragmentHeaderBytes ∧
      frameLoop generation first blockPos remaining =
        encodeFragment generation (fragmentTypeOf chain.isNone false) chunk ++
          frameLoop generation false 0 rest := by
  have hroom := h.room
  fun_cases frameLoop generation first blockPos remaining with
  | case1 available chunk rest fragment hrest =>
    have hle : remaining.length ≤ available := drop_eq_nil_iff.1 hrest
    refine .inl ⟨by omega, ?_⟩
    show encodeFragment generation (fragmentTypeOf first rest.isEmpty) chunk = _
    rw [hrest, show chunk = remaining from take_of_length_le hle, h.first_eq]
    rfl
  | case2 available chunk rest fragment hrest =>
    have hlt : available < remaining.length := not_le.1 fun hle => hrest (drop_eq_nil_of_le hle)
    refine .inr ⟨chunk, rest, take_append_drop _ _, length_take_of_le hlt.le, ?_⟩
    show encodeFragment generation (fragmentTypeOf first rest.isEmpty) chunk ++ _ = _
    rw [h.first_eq, isEmpty_eq_false_iff.2 hrest]

omit [Checksum] in
lemma WritesAt.rest_lt {before chunk : Bytes} (h : WritesAt first blockPos before chain)
    (rest : Bytes) (hchunk : chunk.length = walBlockBytes - blockPos - walFragmentHeaderBytes) :
    Prod.Lex (· < ·) (· < ·) (rest.length, 0) ((chunk ++ rest).length, blockPos) := by
  have hroom := h.room
  have hblock : walFragmentHeaderBytes < walBlockBytes := by decide
  rw [Prod.lex_def, length_append]
  omega

lemma WritesAt.scanStep {before chunk rest : Bytes} {chain : Option PendingChain}
    (h : WritesAt first blockPos before chain) (generation : UInt64)
    (hchunk : chunk.length = walBlockBytes - blockPos - walFragmentHeaderBytes)
    (hlimit : WithinLimit limit (pendingPayload chain ++ (chunk ++ rest)).length) (tail : Bytes) :
    ScanStep generation limit
      (before ++ encodeFragment generation (fragmentTypeOf chain.isNone false) chunk ++ tail)
      before.length chain none
      (before ++ encodeFragment generation (fragmentTypeOf chain.isNone false) chunk).length
      (some ⟨pendingStart chain before.length, pendingPayload chain ++ chunk⟩) := by
  have hroom := h.room
  rw [append_assoc, length_append, length_encodeFragment]
  refine scanStep_chunk ?_ (hlimit.mono ?_) false
  · rw [← h.blockPos_eq]
    omega
  · rw [length_append, length_append, length_append]
    omega

lemma scan_frameLoop (generation : UInt64) {before : Bytes} (remaining tail : Bytes)
    (h : WritesAt first blockPos before chain)
    (hlimit : WithinLimit limit (pendingPayload chain ++ remaining).length) : Scan generation limit
      (before ++ (frameLoop generation first blockPos remaining ++ tail)) before.length chain
      [⟨pendingPayload chain ++ remaining, pendingStart chain before.length,
        fileOffset (before.length + (frameLoop generation first blockPos remaining).length)⟩]
      (before.length + (frameLoop generation first blockPos remaining).length) none := by
  rcases frameLoop_cases generation remaining h with
    ⟨hle, hloop⟩ | ⟨chunk, rest, rfl, hchunk, hloop⟩
  · rw [hloop, length_encodeFragment]
    exact .step (scanStep_chunk (by rwa [← h.blockPos_eq]) hlimit true) (.refl _ _)
  · have hlt := h.rest_lt rest hchunk
    have hmore := scan_frameLoop generation rest tail
      (h.more generation (fragmentTypeOf chain.isNone false) hchunk
        (pendingStart chain before.length) (pendingPayload chain ++ chunk))
      (by rwa [pendingPayload_some, append_assoc])
    have hstep := h.scanStep generation hchunk hlimit (frameLoop generation false 0 rest ++ tail)
    rw [hloop]
    generalize encodeFragment generation (fragmentTypeOf chain.isNone false) chunk = fragment at *
    generalize frameLoop generation false 0 rest = loop at *
    have hdata : before ++ (fragment ++ loop ++ tail) = before ++ fragment ++ (loop ++ tail) := by
      simp only [append_assoc]
    have hend : before.length + (fragment ++ loop).length =
        (before ++ fragment).length + loop.length := by
      rw [length_append, length_append, add_assoc]
    rw [hdata, hend, ← append_assoc (pendingPayload chain)]
    exact .step hstep hmore
termination_by (remaining.length, blockPos)
decreasing_by
  subst remaining
  exact hlt

section

variable {before tail : Bytes}
  (hshort : walBlockBytes - before.length % walBlockBytes < walFragmentHeaderBytes)
include hshort

omit [Checksum] in
lemma blockEnd_eq_add_trailerBytes :
    blockEnd before.length = before.length + trailerBytes before.length := by
  have hblock := block_add_mod before.length
  have hmod := mod_lt_block before.length
  rw [trailerBytes, if_pos hshort, blockEnd_eq]
  omega

omit [Checksum] in
lemma trailerAt_append :
    TrailerAt (before ++ (replicate (trailerBytes before.length) 0 ++ tail)) before.length := by
  have hend := blockEnd_eq_add_trailerBytes hshort
  refine ⟨?_, ?_, ?_⟩
  · rw [hend, trailerBytes, if_pos hshort]
    omega
  · rw [hend, length_append, length_append, length_replicate]
    omega
  · rw [hend, take_length_add_append, drop_left, take_left' (length_replicate)]
    exact fun byte hbyte => eq_of_mem_replicate hbyte

end

omit [Checksum] in
lemma trailerBytes_eq_zero
    (h : ¬walBlockBytes - pos % walBlockBytes < walFragmentHeaderBytes) : trailerBytes pos = 0 :=
  if_neg h

lemma frameBinaryWalRecord_eq (payload : Bytes) (pos : ℕ) :
    frameBinaryWalRecord generation payload pos = replicate (trailerBytes pos) 0 ++
      frameLoop generation true ((pos + trailerBytes pos) % walBlockBytes) payload := by
  unfold frameBinaryWalRecord trailerBytes
  dsimp only
  split_ifs with hshort
  · have hmod : (pos + (walBlockBytes - pos % walBlockBytes)) % walBlockBytes = 0 := by
      have hblock := block_add_mod pos
      have hlt := mod_lt_block pos
      have hfull : pos + (walBlockBytes - pos % walBlockBytes) =
          (pos / walBlockBytes + 1) * walBlockBytes := by
        rw [succ_mul]
        omega
      rw [hfull, mul_mod_left]
    rw [hmod]
  · rfl

omit [Checksum] in
lemma writesAt_frame (before : Bytes) :
    WritesAt true ((before.length + trailerBytes before.length) % walBlockBytes)
      (before ++ replicate (trailerBytes before.length) 0) none := by
  refine ⟨rfl, by rw [length_append, length_replicate], ?_⟩
  by_cases hshort : walBlockBytes - before.length % walBlockBytes < walFragmentHeaderBytes
  · rw [← blockEnd_eq_add_trailerBytes hshort, blockEnd, mul_mod_left]
    decide
  · have hmod := mod_lt_block before.length
    rw [trailerBytes_eq_zero hshort, add_zero]
    omega

lemma scan_trailer (generation : UInt64) (limit : Option ℕ) (before tail : Bytes) (chain : Option PendingChain) :
    Scan generation limit (before ++ (replicate (trailerBytes before.length) 0 ++ tail))
      before.length chain [] (before.length + trailerBytes before.length) chain := by
  by_cases hshort : walBlockBytes - before.length % walBlockBytes < walFragmentHeaderBytes
  · rw [← blockEnd_eq_add_trailerBytes hshort]
    exact .step (.skip (trailerAt_append hshort)) (.refl _ _)
  · rw [trailerBytes_eq_zero hshort]
    exact .refl _ _

lemma scan_frame (generation : UInt64) {payload : Bytes}
    (hlimit : WithinLimit limit payload.length) (before tail : Bytes) : Scan generation limit
      (before ++ (frameBinaryWalRecord generation payload before.length ++ tail)) before.length none
      [framedRecord generation payload before.length]
      (before.length + (frameBinaryWalRecord generation payload before.length).length) none := by
  have hloop := scan_frameLoop generation payload tail (writesAt_frame before) hlimit
  rw [framedRecord, frameBinaryWalRecord_eq, append_assoc, length_append,
    length_replicate, ← add_assoc]
  rw [append_assoc, length_append, length_replicate] at hloop
  exact (scan_trailer generation limit before _ none).trans hloop

/-- The scan ends no more record and stops. -/
def Halts (generation : UInt64) (limit : Option ℕ) (data : Bytes) (pos : ℕ)
    (chain : Option PendingChain) (event : BinaryWalReadEvent) : Prop :=
  ∃ pos' chain', Scan generation limit data pos chain [] pos' chain' ∧
    ScanStop generation data pos' chain' event

section

variable
  {event : BinaryWalReadEvent}

lemma Halts.of_scan (h : Scan generation limit data pos chain [] pos' chain')
    (hhalts : Halts generation limit data pos' chain' event) :
    Halts generation limit data pos chain event := by
  obtain ⟨pos'', chain'', hscan, hstop⟩ := hhalts
  exact ⟨pos'', chain'', h.trans hscan, hstop⟩

lemma halts_end (generation : UInt64) (limit : Option ℕ) (before : Bytes)
    (chain : Option PendingChain) :
    (chain = none ∧ Halts generation limit before before.length chain .eof) ∨
      ∃ reason, Halts generation limit before before.length chain
        (.tornTail (pendingStart chain before.length) reason) := by
  have hend : parseAt generation before before.length = .endOfStream :=
    (parseAt_eq_endOfStream le_rfl).2 rfl
  cases chain with
  | none => exact .inl ⟨rfl, _, _, .refl _ _, .eof hend⟩
  | some pending => exact .inr ⟨_, _, _, .refl _ _, .incomplete hend⟩

lemma halts_torn (h : parseAt generation data pos = .torn reason) :
    Halts generation limit data pos chain (.tornTail (pendingStart chain pos) reason) :=
  ⟨_, _, .refl _ _, .torn h⟩

end

section

variable {chunk before : Bytes}

omit [Checksum] in
lemma blockAt_append (before rest : Bytes)
    (hroom : before.length % walBlockBytes + rest.length ≤ walBlockBytes) :
    (blockAt (before ++ rest) before.length).drop (before.length % walBlockBytes) = rest ∧
      (blockAt (before ++ rest) before.length).length =
        before.length % walBlockBytes + rest.length := by
  have hblock := block_add_mod before.length
  constructor
  · rw [drop_blockAt, take_of_length_le, drop_left]
    rw [blockEnd_eq, length_append]
    omega
  · rw [length_blockAt, length_append]
    omega

lemma parseAt_cut (generation : UInt64) (hroom : before.length % walBlockBytes + walFragmentHeaderBytes +
      chunk.length ≤ walBlockBytes) (hge : fragmentFull ≤ fragmentType)
    (hpos : 0 < m) (hm : m < walFragmentHeaderBytes + chunk.length) :
    ∃ reason, parseAt generation
      (before ++ (encodeFragment generation fragmentType chunk).take m) before.length =
        .torn reason := by
  have hlength : ((encodeFragment generation fragmentType chunk).take m).length = m := by
    rw [length_take, length_encodeFragment]
    omega
  have hheader : 0 < walFragmentHeaderBytes := by decide
  obtain ⟨hdrop, hblock⟩ := blockAt_append before
    ((encodeFragment generation fragmentType chunk).take m) (by omega)
  rw [hlength] at hblock
  unfold parseAt parseBlock
  dsimp only
  rw [hblock, Nat.add_sub_cancel_left, if_neg (by omega), if_neg (by omega)]
  by_cases hcut : m < walFragmentHeaderBytes
  · rw [if_pos hcut]
    exact ⟨_, rfl⟩
  have hne : fragmentType ≠ 0 := by
    rintro rfl
    exact absurd hge (by decide)
  rw [if_neg hcut, hdrop, take_take, Nat.min_eq_left (not_lt.1 hcut),
    headerFields_encodeFragment (by omega)]
  unfold parseHeader
  dsimp only
  rw [if_neg fun h => hne h.2.2.1, if_neg (by omega), if_pos (by omega),
    if_pos (decide_eq_true (by omega))]
  exact ⟨_, rfl⟩

end

lemma scan_frameLoop_cut (generation : UInt64) {before : Bytes} (remaining : Bytes)
    (h : WritesAt first blockPos before chain)
    (hlimit : WithinLimit limit (pendingPayload chain ++ remaining).length)
    (hm : m < (frameLoop generation first blockPos remaining).length) :
    (m = 0 ∧ chain = none ∧ Halts generation limit
      (before ++ (frameLoop generation first blockPos remaining).take m) before.length chain .eof) ∨
    ∃ reason, Halts generation limit
      (before ++ (frameLoop generation first blockPos remaining).take m) before.length chain
      (.tornTail (pendingStart chain before.length) reason) := by
  rcases Nat.eq_zero_or_pos m with rfl | hpos
  · rw [take_zero, append_nil]
    exact (halts_end generation limit before chain).imp_left fun ⟨hnone, hhalts⟩ =>
      ⟨rfl, hnone, hhalts⟩
  right
  rcases frameLoop_cases generation remaining h with
    ⟨hle, hloop⟩ | ⟨chunk, rest, rfl, hchunk, hloop⟩
  · rw [hloop, length_encodeFragment] at hm
    rw [hloop]
    obtain ⟨reason, hparse⟩ := parseAt_cut generation
      (by rwa [← h.blockPos_eq]) (fragmentTypeOf_range chain.isNone true).1 hpos hm
    exact ⟨reason, halts_torn hparse⟩
  · have hroom := h.room
    have hlt := h.rest_lt rest hchunk
    rw [hloop, length_append, length_encodeFragment] at hm
    rw [hloop]
    rcases lt_or_ge m (walFragmentHeaderBytes + chunk.length) with hcut | hwhole
    · obtain ⟨reason, hparse⟩ := parseAt_cut generation
        (by rw [← h.blockPos_eq]; omega) (fragmentTypeOf_range chain.isNone false).1 hpos hcut
      rw [take_append_of_le_length (by rw [length_encodeFragment]; exact hcut.le)]
      exact ⟨reason, halts_torn hparse⟩
    · rw [take_append, length_encodeFragment,
        take_of_length_le ((length_encodeFragment _ _ _).trans_le hwhole), ← append_assoc]
      have hstep := h.scanStep generation hchunk hlimit
        ((frameLoop generation false 0 rest).take (m - (walFragmentHeaderBytes + chunk.length)))
      rcases scan_frameLoop_cut generation rest
        (h.more generation (fragmentTypeOf chain.isNone false) hchunk
          (pendingStart chain before.length) (pendingPayload chain ++ chunk))
        (by rwa [pendingPayload_some, append_assoc])
        (show m - (walFragmentHeaderBytes + chunk.length) < _ by omega) with
        ⟨-, hnone, -⟩ | ⟨reason, hhalts⟩
      · cases hnone
      · exact ⟨reason, hhalts.of_scan (.step hstep (.refl _ _))⟩
termination_by (remaining.length, blockPos)
decreasing_by
  subst remaining
  exact hlt

lemma halts_trailer_cut (generation : UInt64) (limit : Option ℕ) {before : Bytes}
    (hpos : 0 < m) (hm : m < trailerBytes before.length) :
    ∃ reason, Halts generation limit (before ++ replicate m 0) before.length none
      (.tornTail (fileOffset before.length) reason) := by
  have hshort : walBlockBytes - before.length % walBlockBytes < walFragmentHeaderBytes := by
    by_contra hroom
    rw [trailerBytes_eq_zero hroom] at hm
    omega
  rw [trailerBytes, if_pos hshort] at hm
  obtain ⟨hdrop, hblock⟩ := blockAt_append before (replicate m 0) (by rw [length_replicate]; omega)
  rw [length_replicate] at hblock
  have hzero : (replicate m (0 : UInt8)).any (fun byte => byte ≠ 0) = false := by
    rw [any_replicate]
    simp
  have htorn : parseAt generation (before ++ replicate m 0) before.length =
      .torn "block trailer is cut short at end of file" := by
    unfold parseAt parseBlock
    dsimp only
    rw [hdrop, hblock, hzero, Nat.add_sub_cancel_left, if_neg (by omega), if_pos hshort,
      if_neg (by simp), if_pos (by omega)]
  exact ⟨_, halts_torn htorn⟩

lemma scan_frame_cut {payload before : Bytes} (hlimit : WithinLimit limit payload.length)
    (hm : m < (frameBinaryWalRecord generation payload before.length).length) :
    ∃ event, Halts generation limit
      (before ++ (frameBinaryWalRecord generation payload before.length).take m) before.length none
      event ∧ (event = .eof ∧ m ≤ trailerBytes before.length ∨
        ∃ v reason, event = .tornTail v reason ∧ fileOffset before.length ≤ v) := by
  rw [frameBinaryWalRecord_eq] at hm ⊢
  rcases lt_or_ge m (trailerBytes before.length) with hcut | hwhole
  · rw [take_append_of_le_length (by rw [length_replicate]; exact hcut.le),
      take_replicate, min_eq_left hcut.le]
    rcases Nat.eq_zero_or_pos m with rfl | hpos
    · rw [replicate_zero, append_nil]
      exact ⟨.eof, ⟨_, _, .refl _ _, .eof ((parseAt_eq_endOfStream le_rfl).2 rfl)⟩,
        .inl ⟨rfl, zero_le _⟩⟩
    · obtain ⟨reason, hhalts⟩ := halts_trailer_cut generation limit hpos hcut
      exact ⟨_, hhalts, .inr ⟨_, _, rfl, le_rfl⟩⟩
  · rw [length_append, length_replicate] at hm
    have hskip := scan_trailer generation limit before
      ((frameLoop generation true ((before.length + trailerBytes before.length) % walBlockBytes)
        payload).take (m - trailerBytes before.length)) none
    have hcut := scan_frameLoop_cut generation payload (writesAt_frame before) hlimit
      (show m - trailerBytes before.length < _ by omega)
    rw [append_assoc, length_append, length_replicate] at hcut
    rw [take_append, length_replicate, take_of_length_le (by rwa [length_replicate])]
    rcases hcut with ⟨hzero, -, hhalts⟩ | ⟨reason, hhalts⟩
    · exact ⟨_, hhalts.of_scan hskip, .inl ⟨rfl, by omega⟩⟩
    · exact ⟨_, hhalts.of_scan hskip,
        .inr ⟨_, _, rfl, Nat.add_le_add_left (Nat.le_add_right _ _) _⟩⟩

lemma framedRecord_bounds (generation : UInt64) (payload : Bytes) (pos : ℕ) :
    fileOffset pos ≤ (framedRecord generation payload pos).startOffset ∧
      (framedRecord generation payload pos).startOffset <
        (framedRecord generation payload pos).endOffset := by
  have hlimit : WithinLimit none payload.length := nofun
  have hscan := scan_frame generation hlimit (replicate pos 0) []
  have hbounds := hscan.bounds nofun _ (mem_singleton_self _)
  rw [length_replicate] at hbounds
  exact ⟨hbounds.1, hbounds.2.1⟩

lemma framedRecords_bounds (generation : UInt64) : ∀ payloads pos,
    ∀ record ∈ framedRecords generation payloads pos,
      fileOffset pos ≤ record.startOffset ∧ record.startOffset < record.endOffset
  | [], _, _, hrecord => absurd hrecord not_mem_nil
  | payload :: rest, pos, record, hrecord => by
    rcases mem_cons.1 hrecord with rfl | hlater
    · exact framedRecord_bounds generation payload pos
    · obtain ⟨hstart, hlt⟩ := framedRecords_bounds generation rest _ record hlater
      exact ⟨(Nat.add_le_add_left (Nat.le_add_right _ _) _).trans hstart, hlt⟩

/-- How the reading of a log ends that is cut at an offset: with the log, if the cut is in no
record, or at a torn tail behind all complete records. -/
def EndsCut (records : List WalRecord) (start cut : ℕ) (event : BinaryWalReadEvent) : Prop :=
  event = .eof ∧ (∀ record ∈ records, cut ≤ record.startOffset ∨ record.endOffset ≤ cut) ∨
    ∃ v reason, event = .tornTail v reason ∧ start ≤ v ∧
      ∀ record ∈ records, record.endOffset ≤ cut → record.endOffset ≤ v

lemma scan_log_cut (generation : UInt64) (limit : Option ℕ) : ∀ payloads before m,
    (∀ payload ∈ payloads, WithinLimit limit payload.length) →
    ∃ pos chain event, Scan generation limit
        (before ++ (framedLog generation payloads before.length).take m) before.length none
        ((framedRecords generation payloads before.length).filter
          (fun record => record.endOffset ≤ fileOffset (before.length + m))) pos chain ∧
      ScanStop generation (before ++ (framedLog generation payloads before.length).take m) pos chain
        event ∧ EndsCut (framedRecords generation payloads before.length) (fileOffset before.length)
        (fileOffset (before.length + m)) event
  | [], before, m, _ => by
    rw [framedLog, take_nil, append_nil]
    exact ⟨_, _, _, .refl _ _, .eof ((parseAt_eq_endOfStream le_rfl).2 rfl), .inl ⟨rfl, nofun⟩⟩
  | payload :: rest, before, m, hlimit => by
    obtain ⟨hpayload, hrest⟩ := forall_mem_cons.1 hlimit
    have hlater := framedRecords_bounds generation rest
      (before.length + (frameBinaryWalRecord generation payload before.length).length)
    rw [framedLog, framedRecords]
    rcases lt_or_ge m (frameBinaryWalRecord generation payload before.length).length
      with hcut | hwhole
    · have hnone : ∀ record ∈ framedRecord generation payload before.length ::
          framedRecords generation rest
            (before.length + (frameBinaryWalRecord generation payload before.length).length),
          fileOffset (before.length + m) < record.endOffset := by
        rw [forall_mem_cons]
        refine ⟨Nat.add_lt_add_left (Nat.add_lt_add_left hcut _) _, fun record hrecord => ?_⟩
        exact (Nat.add_lt_add_left (Nat.add_lt_add_left hcut _) _).trans
          ((hlater record hrecord).1.trans_lt (hlater record hrecord).2)
      obtain ⟨event, ⟨pos, chain, hscan, hstop⟩, hevent⟩ := scan_frame_cut hpayload hcut
      rw [take_append_of_le_length hcut.le, filter_eq_nil_iff.2 fun record hrecord => by
        rw [decide_eq_true_iff, not_le]
        exact hnone record hrecord]
      refine ⟨pos, chain, event, hscan, hstop, hevent.imp ?_ ?_⟩
      · rintro ⟨heof, hm⟩
        refine ⟨heof, forall_mem_cons.2 ⟨?_, fun record hrecord => ?_⟩⟩
        · exact .inl (Nat.add_le_add_left (Nat.add_le_add_left hm _) _)
        · exact .inl ((Nat.add_le_add_left (Nat.add_le_add_left hcut.le _) _).trans
            (hlater record hrecord).1)
      · rintro ⟨v, reason, hv, hle⟩
        exact ⟨v, reason, hv, hle, fun record hrecord hend =>
          absurd hend (hnone record hrecord).not_ge⟩
    · obtain ⟨pos, chain, event, hscan, hstop, hevent⟩ :=
        scan_log_cut generation limit rest (before ++ frameBinaryWalRecord generation payload before.length)
          (m - (frameBinaryWalRecord generation payload before.length).length) hrest
      have hframe := scan_frame generation hpayload before
        ((framedLog generation rest (before.length +
          (frameBinaryWalRecord generation payload before.length).length)).take
            (m - (frameBinaryWalRecord generation payload before.length).length))
      have hend : (framedRecord generation payload before.length).endOffset =
        fileOffset (before.length +
          (frameBinaryWalRecord generation payload before.length).length) := rfl
      rw [take_append, take_of_length_le hwhole]
      generalize frameBinaryWalRecord generation payload before.length = frame at *
      have hcut : before.length + frame.length + (m - frame.length) = before.length + m := by omega
      rw [length_append, hcut] at hscan hevent
      rw [append_assoc] at hscan hstop
      rw [length_append] at hstop
      have hle : (framedRecord generation payload before.length).endOffset ≤
          fileOffset (before.length + m) := by
        rw [hend]
        exact Nat.add_le_add_left (Nat.add_le_add_left hwhole _) _
      rw [filter_cons_of_pos (by simpa using hle)]
      refine ⟨pos, chain, event, hframe.trans hscan, hstop, hevent.imp ?_ ?_⟩
      · rintro ⟨heof, hout⟩
        exact ⟨heof, forall_mem_cons.2 ⟨.inr hle, hout⟩⟩
      · rintro ⟨v, reason, hv, hstart, hends⟩
        refine ⟨v, reason, hv, ?_, forall_mem_cons.2 ⟨fun _ => hend.trans_le hstart, hends⟩⟩
        exact (Nat.add_le_add_left (Nat.le_add_right _ _) _).trans hstart

end HawDB
