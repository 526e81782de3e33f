import HawDB.WalScan

/-!
# Facts about the scan

A scan only goes forward, reads nothing behind where it has come to (`Scan.append`), and can be
cut after every record (`Scan.split`). What it ends lies between its start and its end, so the
records of a part are those with offsets in it.
-/

namespace HawDB

open List

section

lemma walBlockBytes_pos : 0 < walBlockBytes := by decide

lemma block_add_mod (pos : ℕ) :
    pos / walBlockBytes * walBlockBytes + pos % walBlockBytes = pos := Nat.div_add_mod' _ _

lemma mod_lt_block (pos : ℕ) : pos % walBlockBytes < walBlockBytes :=
  Nat.mod_lt _ walBlockBytes_pos

lemma blockEnd_eq (pos : ℕ) : blockEnd pos = pos / walBlockBytes * walBlockBytes + walBlockBytes :=
  Nat.succ_mul _ _

lemma lt_blockEnd (pos : ℕ) : pos < blockEnd pos := by
  have := block_add_mod pos
  have := mod_lt_block pos
  rw [blockEnd_eq]
  omega

lemma length_blockAt (data : Bytes) (pos : ℕ) : (blockAt data pos).length =
    min walBlockBytes (data.length - pos / walBlockBytes * walBlockBytes) := by
  rw [blockAt, length_take, length_drop]

lemma drop_take_blockAt (data : Bytes) (pos : ℕ) (he : e ≤ walBlockBytes) :
    ((blockAt data pos).take e).drop (pos % walBlockBytes) =
      (data.take (pos / walBlockBytes * walBlockBytes + e)).drop pos := by
  rw [blockAt, take_take, Nat.min_eq_left he, take_drop, drop_drop, block_add_mod]

lemma drop_blockAt (data : Bytes) (pos : ℕ) :
    (blockAt data pos).drop (pos % walBlockBytes) = (data.take (blockEnd pos)).drop pos := by
  have h := drop_take_blockAt data pos (le_refl walBlockBytes)
  rwa [← blockEnd_eq, take_of_length_le (by rw [length_blockAt]; exact min_le_left _ _)] at h

end

variable [Checksum] {data : Bytes}
  {chain chain' : Option PendingChain}

lemma IsFragment.header_le {next : ℕ}
    (h : IsFragment generation fragmentType ((data.take next).drop pos)) :
    pos + walFragmentHeaderBytes ≤ next := by
  have hpos : 0 < walFragmentHeaderBytes := by decide
  have hlength := h.length
  rw [length_drop, length_take] at hlength
  omega

section

lemma ScanStep.lt (h : ScanStep generation limit data pos chain ended pos' chain') :
    pos < pos' := by
  have hheader : 0 < walFragmentHeaderBytes := by decide
  cases h with
  | skip _ => exact lt_blockEnd pos
  | full hfragment _ | first hfragment _ | middle hfragment _ | last hfragment _ =>
    have := hfragment.isFragment.header_le
    omega

lemma ScanStep.le_length (h : ScanStep generation limit data pos chain ended pos' chain') :
    pos' ≤ data.length := by
  cases h with
  | skip htrailer => exact htrailer.le_length
  | full hfragment _ | first hfragment _ | middle hfragment _ | last hfragment _ =>
    exact hfragment.le_length

section

variable (h : Scan generation limit data pos chain records pos' chain')

include h

lemma Scan.le : pos ≤ pos' := by
  induction h with
  | refl => exact le_rfl
  | step hstep _ ih => exact hstep.lt.le.trans ih

lemma Scan.le_length (hpos : pos ≤ data.length) : pos' ≤ data.length := by
  induction h with
  | refl => exact hpos
  | step hstep _ ih => exact ih hstep.le_length

lemma Scan.le_length_of_lt (hlt : pos < pos') : pos' ≤ data.length := by
  cases h with
  | refl => exact absurd hlt (lt_irrefl _)
  | step hstep htail => exact htail.le_length hstep.le_length

end

end

section

variable (hn : n ≤ data.length) (tail : Bytes)
include hn

omit [Checksum] in
lemma take_take_append {next : ℕ} (hle : next ≤ n) :
    (data.take n ++ tail).take next = data.take next := by
  rw [take_append_of_le_length (by rw [length_take]; omega), take_take, Nat.min_eq_left hle]

omit [Checksum] in
lemma le_length_append {next : ℕ} (hle : next ≤ n) : next ≤ (data.take n ++ tail).length := by
  rw [length_append, length_take]
  omega

lemma FragmentAt.append {fragmentType : UInt8} {next : ℕ}
    (h : FragmentAt generation data pos fragmentType next) (hle : next ≤ n) :
    FragmentAt generation (data.take n ++ tail) pos fragmentType next :=
  ⟨le_length_append hn tail hle, h.le_blockEnd, by
    rw [take_take_append hn tail hle]
    exact h.isFragment⟩

omit [Checksum] in
lemma TrailerAt.append (h : TrailerAt data pos) (hle : blockEnd pos ≤ n) :
    TrailerAt (data.take n ++ tail) pos :=
  ⟨h.short, le_length_append hn tail hle, by
    rw [take_take_append hn tail hle]
    exact h.zero⟩

lemma ScanStep.append (h : ScanStep generation limit data pos chain ended pos' chain')
    (hle : pos' ≤ n) :
    ScanStep generation limit (data.take n ++ tail) pos chain ended pos' chain' := by
  have hpayload : fragmentPayload (data.take n ++ tail) pos pos' =
      fragmentPayload data pos pos' := by
    rw [fragmentPayload, take_take_append hn tail hle]
    rfl
  cases h with
  | skip htrailer => exact .skip (htrailer.append hn tail hle)
  | full hfragment hlimit =>
    rw [← hpayload] at hlimit ⊢
    exact .full (hfragment.append hn tail hle) hlimit
  | first hfragment hlimit =>
    rw [← hpayload] at hlimit ⊢
    exact .first (hfragment.append hn tail hle) hlimit
  | middle hfragment hlimit =>
    rw [← hpayload] at hlimit ⊢
    exact .middle (hfragment.append hn tail hle) hlimit
  | last hfragment hlimit =>
    rw [← hpayload] at hlimit ⊢
    exact .last (hfragment.append hn tail hle) hlimit

lemma Scan.append (h : Scan generation limit data pos chain records pos' chain')
    (hle : pos' ≤ n) :
    Scan generation limit (data.take n ++ tail) pos chain records pos' chain' := by
  induction h with
  | refl => exact .refl _ _
  | step hstep htail ih => exact .step (hstep.append hn tail (htail.le.trans hle)) (ih hle)

end

section

lemma Scan.trans (h : Scan generation limit data pos chain records pos' chain')
    (hrest : Scan generation limit data pos' chain' rest pos'' chain'') :
    Scan generation limit data pos chain (records ++ rest) pos'' chain'' := by
  induction h with
  | refl => exact hrest
  | step hstep _ ih =>
    rw [append_assoc]
    exact .step hstep (ih hrest)

lemma ScanStep.of_some {record : WalRecord}
    (h : ScanStep generation limit data pos chain (some record) pos' chain') :
    record.endOffset = fileOffset pos' ∧ chain' = none := by
  cases h with
  | full _ _ | last _ _ => exact ⟨rfl, rfl⟩

lemma Scan.split (h : Scan generation limit data pos chain records pos' chain')
    {record : WalRecord} (hrecord : record ∈ records) :
    ∃ before after p, records = before ++ after ∧ record ∈ before ∧
      record.endOffset = fileOffset p ∧
      Scan generation limit data pos chain before p none ∧
      Scan generation limit data p none after pos' chain' := by
  induction h with
  | refl => exact absurd hrecord not_mem_nil
  | @step pos mid pos'' chain midChain chain'' ended records hstep htail ih =>
    rcases mem_append.1 hrecord with hended | hlater
    · obtain rfl : ended = some record := Option.mem_toList.1 hended
      obtain ⟨hend, rfl⟩ := hstep.of_some
      refine ⟨[record], records, mid, rfl, mem_singleton_self _, hend, ?_, htail⟩
      exact .step hstep (.refl mid none)
    · obtain ⟨before, after, p, rfl, hmem, hend, hbefore, hafter⟩ := ih hlater
      exact ⟨ended.toList ++ before, after, p, (append_assoc _ _ _).symm,
        mem_append_right _ hmem, hend, .step hstep hbefore, hafter⟩

lemma Scan.openedAt (h : Scan generation limit data pos chain records pos' chain')
    {pending : PendingChain} (hpending : chain' = some pending) :
    (records = [] ∧ ∃ start, chain = some start ∧ start.startOffset = pending.startOffset) ∨
    ∃ p, pending.startOffset = fileOffset p ∧
      Scan generation limit data pos chain records p none := by
  induction h with
  | refl => exact .inl ⟨rfl, pending, hpending, rfl⟩
  | @step pos mid pos'' chain midChain chain'' ended records hstep htail ih =>
    rcases ih hpending with ⟨rfl, start, rfl, hstart⟩ | ⟨p, hp, hscan⟩
    · cases hstep with
      | skip _ => exact .inl ⟨rfl, start, rfl, hstart⟩
      | first _ _ => exact .inr ⟨pos, hstart.symm, .refl _ _⟩
      | middle _ _ => exact .inl ⟨rfl, _, rfl, hstart⟩
    · exact .inr ⟨p, hp, .step hstep hscan⟩

lemma ScanStep.bounds (h : ScanStep generation limit data pos chain ended pos' chain')
    (hchain : ∀ c, chain = some c → c.startOffset ≤ fileOffset pos) :
    chain.elim (fileOffset pos) PendingChain.startOffset ≤
      chain'.elim (fileOffset pos') PendingChain.startOffset ∧
    (∀ c, chain' = some c → c.startOffset ≤ fileOffset pos') ∧
    ∀ record, ended = some record →
      chain.elim (fileOffset pos) PendingChain.startOffset ≤ record.startOffset ∧
        record.startOffset < record.endOffset ∧ record.endOffset = fileOffset pos' := by
  have hlt : fileOffset pos < fileOffset pos' := Nat.add_lt_add_left h.lt _
  cases h with
  | skip _ =>
    refine ⟨?_, fun c hc => (hchain c hc).trans hlt.le, nofun⟩
    cases chain with
    | none => exact hlt.le
    | some c => exact le_rfl
  | full _ _ =>
    refine ⟨hlt.le, nofun, ?_⟩
    rintro _ ⟨⟩
    exact ⟨le_rfl, hlt, rfl⟩
  | first _ _ =>
    refine ⟨le_rfl, ?_, nofun⟩
    rintro _ ⟨⟩
    exact hlt.le
  | middle _ _ =>
    refine ⟨le_rfl, ?_, nofun⟩
    rintro _ ⟨⟩
    exact (hchain _ rfl).trans hlt.le
  | last _ _ =>
    refine ⟨(hchain _ rfl).trans hlt.le, nofun, ?_⟩
    rintro _ ⟨⟩
    exact ⟨le_rfl, (hchain _ rfl).trans_lt hlt, rfl⟩

lemma Scan.bounds (h : Scan generation limit data pos chain records pos' chain')
    (hchain : ∀ c, chain = some c → c.startOffset ≤ fileOffset pos) :
    ∀ record ∈ records,
      chain.elim (fileOffset pos) PendingChain.startOffset ≤ record.startOffset ∧
        record.startOffset < record.endOffset ∧ record.endOffset ≤ fileOffset pos' := by
  induction h with
  | refl => exact fun _ hrecord => absurd hrecord not_mem_nil
  | step hstep htail ih =>
    obtain ⟨hle, hchain', hended⟩ := hstep.bounds hchain
    intro record hrecord
    rcases mem_append.1 hrecord with hnow | hlater
    · obtain ⟨hstart, hlt, hend⟩ := hended record (Option.mem_toList.1 hnow)
      exact ⟨hstart, hlt, hend.le.trans (Nat.add_le_add_left htail.le _)⟩
    · obtain ⟨hstart, hlt, hend⟩ := ih hchain' record hlater
      exact ⟨hle.trans hstart, hlt, hend⟩

end

end HawDB
