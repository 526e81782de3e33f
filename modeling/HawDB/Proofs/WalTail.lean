import HawDB.Proofs.WalWriter

/-!
# Torn tails

A torn tail is repaired by truncation to the length the reader gives, so writes and crashes can go on
without end (`whole_writes_survive_crashes`).
-/

namespace HawDB

variable [Checksum] {generation : UInt64} {limit : Option ℕ}

namespace BinaryWalReader

omit [Checksum] in
lemma represents_openFile (file : Bytes) (generation : UInt64) (limit : Option ℕ) :
    Represents generation limit (file.drop walBinaryFileHeaderBytes)
      (openFile file generation limit) 0 none :=
  ⟨⟨rfl, rfl, rfl, rfl⟩, 0, rfl, rfl, rfl, .inl ⟨rfl, rfl, rfl⟩⟩

end BinaryWalReader

open BinaryWalReader

variable {data : Bytes} {pos : ℕ}

lemma scanStop_eof (h : pos = data.length) : ScanStop generation data pos none .eof :=
  .eof ((parseAt_eq_endOfStream h.le).2 h)

variable {chain : Option PendingChain} {records : List WalRecord}

lemma ScanStop.scan_valid (hstop : ScanStop generation data pos chain (.tornTail v reason))
    (hscan : Scan generation limit data start none records pos chain) :
    ∃ p, v = fileOffset p ∧ Scan generation limit data start none records p none := by
  have hopened : ∀ pending, chain = some pending → ∃ p, pending.startOffset = fileOffset p ∧
      Scan generation limit data start none records p none := by
    intro pending hpending
    rcases hscan.openedAt hpending with ⟨-, start, hnone, -⟩ | hp
    · cases hnone
    · exact hp
  cases hstop with
  | incomplete _ => exact hopened _ rfl
  | torn _ =>
    cases chain with
    | none => exact ⟨pos, rfl, hscan⟩
    | some pending => exact hopened pending rfl

lemma readAll_openFile_header {file : Bytes} (h : file.length ≤ walBinaryFileHeaderBytes) :
    (openFile file generation limit).readAll = .ok ([], .eof) := by
  refine (represents_openFile file generation limit).readAll_eq (.refl _ _) (scanStop_eof ?_)
  rw [List.length_drop]
  omega

variable {p : ℕ}

omit [Checksum] in
lemma drop_take_append {file : Bytes} (tail : Bytes) (h : fileOffset p ≤ file.length) :
    (file.take (fileOffset p) ++ tail).drop walBinaryFileHeaderBytes =
      (file.drop walBinaryFileHeaderBytes).take p ++ tail := by
  rw [List.drop_append_of_le_length, List.drop_take, fileOffset, Nat.add_sub_cancel_left]
  rw [List.length_take, Nat.min_eq_left h]
  exact Nat.le_add_right _ _

/-- A file that is truncated where the scan has no chain open reads as its records, and so it does
with more records framed behind. -/
theorem readAll_truncated (file : Bytes) (hle : fileOffset p ≤ file.length)
    (hscan : Scan generation limit (file.drop walBinaryFileHeaderBytes) 0 none records p none) :
    (openFile (file.take (fileOffset p)) generation limit).readAll = .ok (records, .eof) ∧
    ∀ payload, WithinLimit limit payload.length →
      (openFile (file.take (fileOffset p) ++ frameBinaryWalRecord generation payload p)
        generation limit).readAll =
        .ok (records ++ [framedRecord generation payload p], .eof) := by
  have hp : p ≤ (file.drop walBinaryFileHeaderBytes).length := by
    rw [List.length_drop]
    exact Nat.le_sub_of_add_le' hle
  have hlength : ((file.drop walBinaryFileHeaderBytes).take p).length = p :=
    List.length_take_of_le hp
  have happend : ∀ tail, Scan generation limit
      ((file.take (fileOffset p) ++ tail).drop walBinaryFileHeaderBytes) 0 none records p none := by
    intro tail
    rw [drop_take_append tail hle]
    exact hscan.append hp tail le_rfl
  constructor
  · have hwhole := happend []
    rw [List.append_nil] at hwhole
    refine (represents_openFile _ generation limit).readAll_eq hwhole (scanStop_eof ?_)
    have hdrop := drop_take_append [] hle
    rw [List.append_nil, List.append_nil] at hdrop
    rw [hdrop, hlength]
  · intro payload hlimit
    have hframe := scan_frame generation hlimit ((file.drop walBinaryFileHeaderBytes).take p) []
    rw [hlength, List.append_nil, ← drop_take_append _ hle] at hframe
    refine (represents_openFile _ generation limit).readAll_eq ((happend _).trans hframe)
      (scanStop_eof ?_)
    rw [drop_take_append _ hle, List.length_append, hlength]

/-- A torn tail is repaired by truncation: the records stay, and a record that is appended then is
read after them. -/
theorem torn_tail_repair_exact {file : Bytes} {records : List WalRecord} {v : ℕ} {reason : String}
    (hread : (openFile file generation limit).readAll = .ok (records, .tornTail v reason)) :
    (openFile (file.take v) generation limit).readAll = .ok (records, .eof) ∧
    ∀ payload, WithinLimit limit payload.length →
      (openFile (file.take v ++ frameBinaryWalRecord generation payload
        (v - walBinaryFileHeaderBytes)) generation limit).readAll =
        .ok (records ++ [framedRecord generation payload (v - walBinaryFileHeaderBytes)], .eof) := by
  obtain ⟨pos, chain, hscan, hstop | ⟨_, _, hcorrupt⟩⟩ :=
    (represents_openFile file generation limit).of_readAll hread
  swap
  · cases hcorrupt
  obtain ⟨p, rfl, hvalid⟩ := hstop.scan_valid hscan
  have hheader : walBinaryFileHeaderBytes < file.length := by
    by_contra hshort
    rw [readAll_openFile_header (not_lt.1 hshort)] at hread
    cases hread
  have hle : fileOffset p ≤ file.length := by
    have hp := hvalid.le_length (Nat.zero_le _)
    rw [List.length_drop] at hp
    unfold fileOffset
    omega
  have hpos : fileOffset p - walBinaryFileHeaderBytes = p := Nat.add_sub_cancel_left _ _
  rw [hpos]
  exact readAll_truncated file hle hvalid

omit [Checksum] in
/-- A log of one record with two bytes of the next, whose place the record takes that is appended. -/
theorem torn_tail_repair_exact_headerCut :
    letI : Checksum := ⟨fun _ => 0⟩
    let log := List.replicate 28 0 ++ frameBinaryWalRecord 7 [1] 0
    (openFile (log ++ [0, 0]) 7 none).readAll =
        .ok ([framedRecord 7 [1] 0], .tornTail 44 "fragment header is cut short at end of file") ∧
      (openFile (log ++ frameBinaryWalRecord 7 [2] 16) 7 none).readAll =
        .ok ([framedRecord 7 [1] 0, framedRecord 7 [2] 16], .eof) := by
  let _ : Checksum := ⟨fun _ => 0⟩
  intro log
  have hlimit : ∀ n, WithinLimit none n := fun n l hl => by cases hl
  have hframe : frameBinaryWalRecord 7 [1] 0 = encodeFragment 7 fragmentFull [1] := by
    unfold frameBinaryWalRecord frameLoop
    simp [walBlockBytes, walFragmentHeaderBytes, fragmentTypeOf]
  have hscan := scan_frame 7 (hlimit [1].length) [] [0, 0]
  have hread : (openFile (log ++ [0, 0]) 7 none).readAll =
      .ok ([framedRecord 7 [1] 0], .tornTail 44 "fragment header is cut short at end of file") := by
    refine (represents_openFile _ 7 none).readAll_eq hscan ?_
    show ScanStop 7 ([] ++ (frameBinaryWalRecord 7 [1] 0 ++ [0, 0]))
      (0 + (frameBinaryWalRecord 7 [1] 0).length) none _
    rw [hframe]
    exact .torn (by decide +kernel)
  have hrepair := (torn_tail_repair_exact hread).2 [2] (hlimit _)
  have htake : (log ++ [0, 0]).take 44 = log := by
    show (List.replicate 28 0 ++ frameBinaryWalRecord 7 [1] 0 ++ [0, 0]).take 44 =
      List.replicate 28 0 ++ frameBinaryWalRecord 7 [1] 0
    rw [hframe]
    rfl
  rw [htake] at hrepair
  exact ⟨hread, hrepair⟩
section

lemma framedRecords_payload (generation : UInt64) : ∀ (payloads : List Bytes) (pos : ℕ),
    (framedRecords generation payloads pos).map WalRecord.payload = payloads
  | [], _ => rfl
  | payload :: rest, pos => by
    rw [framedRecords, List.map_cons, framedRecords_payload generation rest]
    rfl

/-- A log that is cut anywhere behind its header reads as its complete records, and is then at its
end or torn behind them; torn it is if the cut is in a record. -/
theorem cut_log_reads_complete_records (generation : UInt64) (payloads : List Bytes)
    {header : Bytes} (hheader : header.length = walBinaryFileHeaderBytes) {cut : ℕ}
    (hcut : walBinaryFileHeaderBytes ≤ cut) :
    (framedRecords generation payloads 0).map WalRecord.payload = payloads ∧
    ∃ event,
      (openFile ((header ++ framedLog generation payloads 0).take cut) generation none).readAll =
        .ok ((framedRecords generation payloads 0).filter
          (fun record => record.endOffset ≤ cut), event) ∧
      (event = .eof ∨ ∃ v reason, event = .tornTail v reason ∧ walBinaryFileHeaderBytes ≤ v ∧
        ∀ record ∈ framedRecords generation payloads 0,
          record.endOffset ≤ cut → record.endOffset ≤ v) ∧
      ((∃ record ∈ framedRecords generation payloads 0,
          record.startOffset < cut ∧ cut < record.endOffset) →
        ∃ v reason, event = .tornTail v reason) := by
  refine ⟨framedRecords_payload generation payloads 0, ?_⟩
  obtain ⟨m, rfl⟩ := Nat.exists_eq_add_of_le hcut
  have hdata : ((header ++ framedLog generation payloads 0).take
      (walBinaryFileHeaderBytes + m)).drop walBinaryFileHeaderBytes =
        (framedLog generation payloads 0).take m := by
    rw [← hheader, List.take_length_add_append, List.drop_left]
  obtain ⟨pos, chain, event, hscan, hstop, hevent⟩ :=
    scan_log_cut generation none payloads [] m fun _ _ => nofun
  rw [List.length_nil, Nat.zero_add] at hscan hevent
  rw [List.nil_append] at hscan hstop
  refine ⟨event, ?_, ?_, ?_⟩
  · have hopen := represents_openFile
      ((header ++ framedLog generation payloads 0).take (walBinaryFileHeaderBytes + m))
      generation none
    rw [hdata] at hopen
    exact hopen.readAll_eq hscan hstop
  · exact hevent.imp And.left id
  · rintro ⟨record, hrecord, hstart, hend⟩
    rcases hevent with ⟨-, hout⟩ | ⟨v, reason, hv, -⟩
    · rcases hout record hrecord with hle | hle
      · exact absurd hstart hle.not_gt
      · exact absurd hend hle.not_gt
    · exact ⟨v, reason, hv⟩

omit [Checksum] in
/-- A log of two records, cut in the second. -/
theorem cut_log_reads_complete_records_second :
    letI : Checksum := ⟨fun _ => 0⟩
    ∃ event, (openFile ((List.replicate 28 0 ++ framedLog 7 [[1], [2]] 0).take 50) 7 none).readAll =
      .ok ((framedRecords 7 [[1], [2]] 0).filter (fun record => record.endOffset ≤ 50), event) := by
  let _ : Checksum := ⟨fun _ => 0⟩
  obtain ⟨event, hread, -⟩ := (cut_log_reads_complete_records 7 [[1], [2]]
    (List.length_replicate : (List.replicate 28 (0 : UInt8)).length = 28)
    (show walBinaryFileHeaderBytes ≤ 50 by decide)).2
  exact ⟨event, hread⟩

end

section

variable {file : Bytes} {a b : ℕ}

omit [Checksum] in
lemma range_eq {cursor : BinaryWalReader}
    (hfrom : walBinaryFileHeaderBytes ≤ fromOffset) (hlt : fromOffset < toOffset)
    (hstart : blockStart = walBinaryFileHeaderBytes +
      (fromOffset - walBinaryFileHeaderBytes) / walBlockBytes * walBlockBytes)
    (hskip : skip = fromOffset - blockStart)
    (hcursor : cursor = { new (file.drop blockStart) generation limit with
      blockOffset := blockStart, endOffset := some toOffset })
    (hle : skip ≤ cursor.loadNextBlock.block.length) :
    range file generation limit fromOffset toOffset =
      .ok { cursor.loadNextBlock with blockPos := skip, blockPos_le := hle } := by
  subst hskip hcursor hstart
  unfold range
  rw [if_neg (by rw [not_or, not_lt, not_lt]; exact ⟨hfrom, hlt.le⟩)]
  dsimp only
  rw [if_neg hlt.ne, dif_neg hle.not_gt]

omit [Checksum] in
lemma represents_range (generation : UInt64) (limit : Option ℕ) (hpq : p < q)
    (hq : fileOffset q ≤ file.length) :
    ∃ reader, range file generation limit (fileOffset p) (fileOffset q) = .ok reader ∧
      Represents generation limit ((file.drop walBinaryFileHeaderBytes).take q) reader p none := by
  have hblock := block_add_mod p
  obtain ⟨cursor, hcursor⟩ : ∃ cursor, cursor =
      { new (file.drop (fileOffset (p / walBlockBytes * walBlockBytes))) generation limit with
        blockOffset := fileOffset (p / walBlockBytes * walBlockBytes)
        endOffset := some (fileOffset q) } := ⟨_, rfl⟩
  have hloaded : Loaded generation limit ((file.drop walBinaryFileHeaderBytes).take q)
      cursor.loadNextBlock (p / walBlockBytes * walBlockBytes) none := by
    have hreads : Reads generation limit cursor none := by
      rw [hcursor]
      exact ⟨rfl, rfl, rfl, rfl⟩
    refine loaded_loadNextBlock hreads (by rw [hcursor]; rfl) ?_ (by rw [hcursor]; rfl)
    rw [hcursor]
    show (file.drop (fileOffset _)).take (fileOffset q - (fileOffset _ + 0)) = _
    rw [List.drop_take, List.drop_drop, Nat.add_zero, fileOffset, fileOffset, Nat.add_sub_add_left]
  have hle : p % walBlockBytes ≤ cursor.loadNextBlock.block.length := by
    have hlt := mod_lt_block p
    have hlength : ((file.drop walBinaryFileHeaderBytes).take q).length = q := by
      refine List.length_take_of_le ?_
      rw [List.length_drop]
      exact Nat.le_sub_of_add_le' hq
    rw [hloaded.block_eq, length_blockAt, hlength, Nat.mul_div_cancel _ walBlockBytes_pos]
    omega
  refine ⟨_, range_eq (Nat.le_add_right _ _) (Nat.add_lt_add_left hpq _) ?_ ?_ hcursor hle, ?_⟩
  · unfold fileOffset
    rw [Nat.add_sub_cancel_left]
  · unfold fileOffset
    omega
  · have hat := hloaded.represents hle none
    rw [Nat.mul_div_cancel _ walBlockBytes_pos, hblock] at hat
    exact ⟨⟨hat.generation_eq, hat.limit_eq, hloaded.chain_eq, hat.not_finished⟩, hat.exists_block⟩

lemma Scan.boundary (h : Scan generation limit data 0 none records pos chain)
    (hoffset : IsBoundary records offset) :
    ∃ before after p, offset = fileOffset p ∧ records = before ++ after ∧
      Scan generation limit data 0 none before p none ∧
      Scan generation limit data p none after pos chain := by
  rcases hoffset with rfl | ⟨record, hrecord, rfl⟩
  · exact ⟨[], records, 0, rfl, rfl, .refl _ _, h⟩
  · obtain ⟨before, after, p, hsplit, -, hend, hbefore, hafter⟩ := h.split hrecord
    exact ⟨before, after, p, hend, hsplit, hbefore, hafter⟩

lemma recordsBetween_scan (hbefore : Scan generation limit data 0 none before p none)
    (hmid : Scan generation limit data p none mid q none)
    (hafter : Scan generation limit data q none after pos chain) :
    recordsBetween (before ++ (mid ++ after)) (fileOffset p) (fileOffset q) = mid := by
  have hout₁ : before.filter (fun record =>
      decide (fileOffset p ≤ record.startOffset ∧ record.endOffset ≤ fileOffset q)) = [] := by
    refine List.filter_eq_nil_iff.2 fun record hrecord => ?_
    obtain ⟨-, hlt, hend⟩ := hbefore.bounds nofun record hrecord
    rw [decide_eq_true_iff]
    omega
  have hout₂ : after.filter (fun record =>
      decide (fileOffset p ≤ record.startOffset ∧ record.endOffset ≤ fileOffset q)) = [] := by
    refine List.filter_eq_nil_iff.2 fun record hrecord => ?_
    obtain ⟨hstart, hlt, -⟩ := hafter.bounds nofun record hrecord
    rw [Option.elim_none] at hstart
    rw [decide_eq_true_iff]
    omega
  have hin : mid.filter (fun record =>
      decide (fileOffset p ≤ record.startOffset ∧ record.endOffset ≤ fileOffset q)) = mid := by
    refine List.filter_eq_self.2 fun record hrecord => ?_
    obtain ⟨hstart, -, hend⟩ := hmid.bounds nofun record hrecord
    exact decide_eq_true ⟨hstart, hend⟩
  rw [recordsBetween, List.filter_append, List.filter_append, hout₁, hin, hout₂, List.nil_append,
    List.append_nil]

lemma Scan.boundaries (h : Scan generation limit data 0 none records pos chain)
    (ha : IsBoundary records a) (hb : IsBoundary records b) (hab : a ≤ b) :
    ∃ mid p q, a = fileOffset p ∧ b = fileOffset q ∧ recordsBetween records a b = mid ∧
      Scan generation limit data p none mid q none := by
  obtain ⟨before, after, p, rfl, rfl, hbefore, hafter⟩ := h.boundary ha
  have hsame : fileOffset p = b → ∃ mid p' q, fileOffset p = fileOffset p' ∧ b = fileOffset q ∧
      recordsBetween (before ++ after) (fileOffset p) b = mid ∧
      Scan generation limit data p' none mid q none := by
    rintro rfl
    exact ⟨[], p, p, rfl, rfl, recordsBetween_scan hbefore (.refl _ _) hafter, .refl _ _⟩
  rcases hb with rfl | ⟨record, hrecord, rfl⟩
  · exact hsame (le_antisymm hab (Nat.le_add_right _ _))
  rcases List.mem_append.1 hrecord with hmem | hmem
  · exact hsame (le_antisymm hab (hbefore.bounds nofun record hmem).2.2)
  · obtain ⟨mid, rest, q, rfl, -, hend, hmid, hrest⟩ := hafter.split hmem
    rw [hend]
    exact ⟨mid, p, q, rfl, rfl, recordsBetween_scan hbefore hmid hrest, hmid⟩

lemma readAll_range_empty (ha : walBinaryFileHeaderBytes ≤ a) :
    ∃ reader, range file generation limit a a = .ok reader ∧ reader.readAll = .ok ([], .eof) := by
  unfold range
  rw [if_neg (by rw [not_or, not_lt, not_lt]; exact ⟨ha, le_rfl⟩)]
  dsimp only
  rw [if_pos rfl]
  exact ⟨_, rfl, readAll_finished rfl⟩

/-- An interval between two boundaries is read as the records of the whole file that lie in it,
whatever bytes follow. -/
theorem range_reads_records_between {records : List WalRecord} {event : BinaryWalReadEvent}
    (hread : (openFile file generation limit).readAll = .ok (records, event))
    (ha : IsBoundary records a) (hb : IsBoundary records b) (hab : a ≤ b)
    {file' : Bytes} (hsame : file'.take b = file.take b) :
    ∃ reader, range file' generation limit a b = .ok reader ∧
      reader.readAll = .ok (recordsBetween records a b, .eof) := by
  obtain ⟨pos, chain, hscan, -⟩ := (represents_openFile file generation limit).of_readAll hread
  obtain ⟨mid, p, q, rfl, rfl, hmid, hpart⟩ := hscan.boundaries ha hb hab
  rw [hmid]
  rcases hpart.le.eq_or_lt with rfl | hlt
  · obtain rfl : mid = [] := by
      refine List.eq_nil_iff_forall_not_mem.2 fun record hrecord => ?_
      obtain ⟨hstart, hlt, hend⟩ := hpart.bounds nofun record hrecord
      exact absurd (hstart.trans_lt hlt) hend.not_gt
    exact readAll_range_empty (Nat.le_add_right _ _)
  · have hq := hpart.le_length_of_lt hlt
    have hfile : fileOffset q ≤ file.length := by
      rw [List.length_drop] at hq
      unfold fileOffset
      omega
    have hfile' : fileOffset q ≤ file'.length := by
      have hlength := congrArg List.length hsame
      rw [List.length_take, List.length_take, Nat.min_eq_left hfile] at hlength
      exact min_eq_left_iff.1 hlength
    have hdata : (file'.drop walBinaryFileHeaderBytes).take q =
        (file.drop walBinaryFileHeaderBytes).take q := by
      have hpos : fileOffset q - walBinaryFileHeaderBytes = q := Nat.add_sub_cancel_left _ _
      rw [← hpos, ← List.drop_take, ← List.drop_take, hsame]
    obtain ⟨reader, hrange, hreader⟩ := represents_range generation limit hlt hfile'
    refine ⟨reader, hrange, ?_⟩
    rw [hdata] at hreader
    have hscan' := hpart.append hq [] le_rfl
    rw [List.append_nil] at hscan'
    exact hreader.readAll_eq hscan' (scanStop_eof (List.length_take_of_le hq).symm)

omit [Checksum] in
/-- A record between the header and a byte that is no fragment. -/
theorem range_reads_records_between_damagedTail :
    letI : Checksum := ⟨fun _ => 0⟩
    ∃ reader, range (List.replicate 28 0 ++ frameBinaryWalRecord 7 [1] 0 ++ [9]) 7 none 28
        (framedRecord 7 [1] 0).endOffset = .ok reader ∧
      reader.readAll =
        .ok (recordsBetween [framedRecord 7 [1] 0] 28 (framedRecord 7 [1] 0).endOffset, .eof) := by
  let _ : Checksum := ⟨fun _ => 0⟩
  have hread : (openFile (List.replicate 28 0 ++ frameBinaryWalRecord 7 [1] 0) 7 none).readAll =
      .ok ([framedRecord 7 [1] 0], .eof) :=
    (readAll_truncated (List.replicate 28 0) (p := 0) le_rfl (.refl _ _)).2 [1] nofun
  refine range_reads_records_between hread (.inl rfl) (.inr ⟨_, List.mem_singleton_self _, rfl⟩)
    (Nat.le_add_right _ _) (List.take_append_of_le_length ?_)
  rw [List.length_append, List.length_replicate]
  exact Nat.add_le_add_left (Nat.zero_add _).le _

end

section

open List

def ReadsAs (generation : UInt64) (s : Bytes × List Bytes) : Prop :=
  walBinaryFileHeaderBytes ≤ s.1.length ∧ ∃ records,
    (openFile s.1 generation none).readAll = .ok (records, .eof) ∧ records.map WalRecord.payload = s.2

lemma scan_of_readAll (h : (openFile file generation limit).readAll = .ok (records, .eof)) :
    Scan generation limit (file.drop walBinaryFileHeaderBytes) 0 none records
      (file.drop walBinaryFileHeaderBytes).length none := by
  obtain ⟨pos, chain, hscan, hstop | ⟨_, _, hcorrupt⟩⟩ := (represents_openFile ..).of_readAll h
  · obtain ⟨hend⟩ := hstop
    rwa [← (parseAt_eq_endOfStream (hscan.le_length (Nat.zero_le _))).1 hend]
  · cases hcorrupt

lemma ReadsAs.step (h : ReadsAs generation s) (write : Bytes × ℕ) :
    ReadsAs generation (writeOrCrash generation s write) := by
  obtain ⟨file, payloads⟩ := s
  obtain ⟨hheader, records, hread, rfl⟩ := h
  have hscan := scan_of_readAll hread
  have hlonger : ∀ tail, walBinaryFileHeaderBytes ≤ (file ++ tail).length :=
    fun tail => hheader.trans (length_append ▸ Nat.le_add_right _ _)
  have hlimit : WithinLimit none write.1.length := by rintro _ ⟨⟩
  unfold writeOrCrash
  dsimp only at hheader ⊢
  rw [← length_drop]
  split_ifs with hwhole
  · have hlen : fileOffset (file.drop walBinaryFileHeaderBytes).length = file.length := by
      rw [fileOffset, length_drop, Nat.add_sub_of_le hheader]
    have hread := (readAll_truncated file hlen.le hscan).2 write.1 hlimit
    rw [hlen, take_length] at hread
    rw [take_of_length_le hwhole, hread]
    exact ⟨hlonger _, _, hread, map_append⟩
  obtain ⟨event, ⟨pos, chain, hhalt, hstop⟩, hevent⟩ := scan_frame_cut hlimit (not_le.1 hwhole)
  generalize take write.2 _ = tail at hhalt hstop ⊢
  have hall := hscan.append le_rfl tail le_rfl
  rw [take_length] at hall
  replace hall := hall.trans hhalt
  rw [append_nil] at hall
  rw [← drop_append_of_le_length hheader] at hall hstop
  have hread := (represents_openFile ..).readAll_eq hall hstop
  rw [hread]
  rcases hevent with ⟨rfl, -⟩ | ⟨v, reason, rfl, -⟩
  · exact ⟨hlonger tail, records, hread, rfl⟩
  · obtain ⟨p, rfl, hvalid⟩ := hstop.scan_valid hall
    have hp := hvalid.le_length (Nat.zero_le _)
    rw [length_drop] at hp
    have hle : fileOffset p ≤ (file ++ tail).length := Nat.add_le_of_le_sub' (hlonger tail) hp
    refine ⟨?_, records, (readAll_truncated _ hle hvalid).1, rfl⟩
    exact (Nat.le_add_right _ _).trans (length_take_of_le hle).ge

/-- However writes and crashes follow each other, the log reads as what was written whole. -/
theorem whole_writes_survive_crashes (generation : UInt64)
    (header : List.Vector UInt8 walBinaryFileHeaderBytes) (writes : List (Bytes × ℕ)) :
    ReadsAs generation (writes.foldl (writeOrCrash generation) (header.1, [])) := by
  have hstart : ReadsAs generation (header.1, []) :=
    ⟨header.2.ge, [], readAll_openFile_header header.2.le, rfl⟩
  exact foldlRecOn writes _ hstart fun _ h write _ => h.step write

end

end HawDB
