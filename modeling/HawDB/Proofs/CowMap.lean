import HawDB.CowMap

/-!
# A segmented map is an ordered map

The entries of the pages, one page after another, are the ordered map that a segmented map stands
for (`iter`). The page of a key splits the entries into those below the key, the page's own and
those above it (`segmentFor_spec`), so an operation on that page is the operation on the whole.
-/

namespace HawDB

open List CowMapPage OrdMap Option

section

variable {K V : Type*} [Ord K] [Std.TransOrd K] {l : List (K × V)} {k : K}

lemma rank_le_of_getLast? (h : SortedKeys l) {z : K × V} (hz : l.getLast? = some z) :
    ∀ e ∈ l, rank e.1 ≤ rank z.1 := by
  obtain ⟨l', rfl⟩ := getLast?_eq_some_iff.1 hz
  intro e he
  rcases mem_append.1 he with he | he
  · exact (rank_lt_rank.2 ((sortedKeys_append.1 h).2.2 e he z (by simp))).le
  · rw [mem_singleton.1 he]

lemma rank_ge_of_head? (h : SortedKeys l) {z : K × V} (hz : l.head? = some z) :
    ∀ e ∈ l, rank z.1 ≤ rank e.1 := by
  obtain ⟨l', rfl⟩ := head?_eq_some_iff.1 hz
  intro e he
  rcases mem_cons.1 he with rfl | he
  · exact le_rfl
  · exact (rank_lt_rank.2 ((pairwise_cons.1 h).1 e he)).le

lemma filter_lt_append (h : SortedKeys l) :
    (l.filter fun e => (compare e.1 k).isLT) ++ (l.filter fun e => !(compare e.1 k).isLT) = l := by
  induction l with
  | nil => rfl
  | cons e l ih =>
    obtain ⟨hlt, hl⟩ := pairwise_cons.1 h
    by_cases he : (compare e.1 k).isLT
    · simp only [filter_cons, he, Bool.not_true, Bool.false_eq_true, if_true, if_false,
        cons_append, ih hl]
    have hnone : ∀ a ∈ l, ¬ (compare a.1 k).isLT := by
      intro a ha hak
      rw [Ordering.isLT_iff_eq_lt] at he hak
      exact he (Std.TransCmp.lt_trans (hlt a ha) hak)
    have hall : (l.filter fun a => !(compare a.1 k).isLT) = l :=
      filter_eq_self.2 fun a ha => by simp [hnone a ha]
    simp only [filter_cons, Bool.not_eq_true _ ▸ he, Bool.not_false, Bool.false_eq_true,
      if_true, if_false, filter_eq_nil_iff.2 hnone, hall, nil_append]

lemma found_le_sum (w : K × V → ℕ) (h : SortedKeys l) :
    ((findEntry k l).map w).getD 0 ≤ (l.map w).sum := by
  have hsum := sum_removeEntry (k := k) w h
  omega

end

namespace CowMapPage

variable {K V : Type*} [Ord K] [CowPageWeight K] [CowPageWeight V] {page : CowMapPage K V}

/-- What a page of a map satisfies, apart from its place among the others. -/
structure Ok (page : CowMapPage K V) : Prop where
  nonempty : page.entries.entries ≠ []
  capacity : page.entries.entries.length ≤ cowMapMaxSegmentEntries
  bytes : ∀ b, page.bytes = some b → b = page.recomputedBytes

omit [CowPageWeight K] [CowPageWeight V] in
@[simp] lemma detach_entries (shared : Bool) : (page.detach shared).entries = page.entries := by
  unfold detach
  split_ifs <;> rfl

omit [CowPageWeight K] [CowPageWeight V] in
@[simp] lemma detach_bytes (shared : Bool) : (page.detach shared).bytes = page.bytes := by
  unfold detach
  split_ifs <;> rfl

@[simp] lemma detach_recomputedBytes (shared : Bool) :
    (page.detach shared).recomputedBytes = page.recomputedBytes := by
  simp [recomputedBytes]

@[simp] lemma detach_payloadBytes (shared : Bool) :
    (page.detach shared).payloadBytes = page.payloadBytes := by
  simp [payloadBytes]

lemma payloadBytes_eq (h : ∀ b, page.bytes = some b → b = page.recomputedBytes) :
    page.payloadBytes = page.recomputedBytes := by
  unfold payloadBytes
  rcases hb : page.bytes with _ | b
  · rfl
  · exact h b hb

variable {key : K}

omit [Ord K] in
lemma splitScan_some : ∀ {i bytes} {l : List (K × V)},
    splitScan half i bytes l = some key → ∃ l₁ e l₂, l = l₁ ++ e :: l₂ ∧ e.1 = key ∧
      0 < i + l₁.length
  | _, _, [], h => by simp [splitScan] at h
  | i, bytes, e :: l, h => by
    unfold splitScan at h
    split_ifs at h with hi
    · exact ⟨[], e, l, rfl, by simpa using h, by simpa using hi.1⟩
    · obtain ⟨l₁, a, l₂, rfl, ha, -⟩ := splitScan_some h
      exact ⟨e :: l₁, a, l₂, rfl, ha, by simp⟩

lemma splitKey_some (page : CowMapPage K V) (h : 2 ≤ page.entries.entries.length) :
    ∃ l₁ e l₂, page.entries.entries = l₁ ++ e :: l₂ ∧ l₁ ≠ [] ∧ page.splitKey = some e.1 := by
  unfold splitKey
  rcases hs : splitScan (page.estimatedBytes / 2) 0 0 page.entries.entries with _ | key
  · have hlt : page.entries.entries.length / 2 < page.entries.entries.length := by omega
    refine ⟨page.entries.entries.take (page.entries.entries.length / 2),
      page.entries.entries[page.entries.entries.length / 2],
      page.entries.entries.drop (page.entries.entries.length / 2 + 1), ?_, ?_, ?_⟩
    · rw [getElem_cons_drop, take_append_drop]
    · rw [Ne, take_eq_nil_iff]
      rintro (h0 | h0)
      · omega
      · simp [h0] at h
    · simp [getElem?_eq_getElem hlt]
  · obtain ⟨l₁, e, l₂, hl, rfl, hpos⟩ := splitScan_some hs
    exact ⟨l₁, e, l₂, hl, by rintro rfl; simp at hpos, rfl⟩

variable [Std.TransOrd K]

section

variable (h : ∀ b, page.bytes = some b → b = page.recomputedBytes)

include h

lemma insert_bytes (value : V) :
    ∀ b, (page.insert key value).2.bytes = some b →
      b = (page.insert key value).2.recomputedBytes := by
  rintro b ⟨⟩
  have hsum := sum_insertEntry (k := key) (v := value) entryPayload page.entries.sorted
  have hle := found_le_sum (k := key) entryPayload page.entries.sorted
  rw [payloadBytes_eq h]
  show _ = ((insertEntry key value page.entries.entries).map entryPayload).sum
  unfold recomputedBytes
  omega

lemma remove_bytes :
    ∀ b, (page.remove key).2.bytes = some b → b = (page.remove key).2.recomputedBytes := by
  rintro b ⟨⟩
  have hsum := sum_removeEntry (k := key) entryPayload page.entries.sorted
  rw [payloadBytes_eq h]
  show _ = ((removeEntry key page.entries.entries).map entryPayload).sum
  unfold recomputedBytes
  omega

lemma editValue_bytes (f : V → V) :
    ∀ b, (page.editValue key f).bytes = some b → b = (page.editValue key f).recomputedBytes := by
  rintro b ⟨⟩
  have hsum := sum_updateEntry (k := key) entryPayload f page.entries.sorted
  have hle := found_le_sum (k := key) entryPayload page.entries.sorted
  rw [payloadBytes_eq h]
  show _ = ((updateEntry key f page.entries.entries).map entryPayload).sum
  unfold recomputedBytes
  omega

end

/-- The pages that take the place of one that may have grown too large. -/
def splitPages (page : CowMapPage K V) : List (CowMapPage K V) :=
  page.splitOversized.1 :: page.splitOversized.2.toList

lemma splitOff_spec (h : ∀ b, page.bytes = some b → b = page.recomputedBytes) {e : K × V}
    (hl : page.entries.entries = l₁ ++ e :: l₂)
    (hne : l₁ ≠ []) (hcap : page.entries.entries.length ≤ cowMapMaxSegmentEntries + 1) :
    (page.splitOff e.1).1.Ok ∧ (page.splitOff e.1).2.Ok ∧
      (page.splitOff e.1).1.entries.entries ++ (page.splitOff e.1).2.entries.entries =
        page.entries.entries := by
  have happ := filter_lt_append (k := e.1) page.entries.sorted
  have hsorted := sortedKeys_append.1 (hl ▸ page.entries.sorted)
  have hlow : l₁ ⊆ page.entries.entries.filter fun a => (compare a.1 e.1).isLT := by
    intro a ha
    rw [mem_filter, hl]
    exact ⟨mem_append_left _ ha, by simp [hsorted.2.2 a ha e mem_cons_self]⟩
  have hhigh : e ∈ page.entries.entries.filter fun a => !(compare a.1 e.1).isLT := by
    rw [mem_filter, hl]
    exact ⟨by simp, by simp⟩
  have hlen := congrArg length happ
  rw [length_append] at hlen
  obtain ⟨a, ha⟩ := exists_mem_of_ne_nil l₁ hne
  have hpos₁ := length_pos_of_mem (hlow ha)
  have hpos₂ := length_pos_of_mem hhigh
  have hsum := congrArg (fun l => (l.map entryPayload).sum) happ
  simp only [map_append, sum_append] at hsum
  refine ⟨⟨ne_nil_of_mem (hlow ha), ?_, ?_⟩, ⟨ne_nil_of_mem hhigh, ?_, ?_⟩, happ⟩
  · show (page.entries.entries.filter _).length ≤ _
    omega
  · rintro b ⟨⟩
    rw [payloadBytes_eq h]
    show page.recomputedBytes -
      ((page.entries.entries.filter fun a => !(compare a.1 e.1).isLT).map entryPayload).sum =
      ((page.entries.entries.filter fun a => (compare a.1 e.1).isLT).map entryPayload).sum
    unfold recomputedBytes
    omega
  · show (page.entries.entries.filter _).length ≤ _
    omega
  · rintro b ⟨⟩
    rfl

lemma splitPages_spec (page : CowMapPage K V)
    (h : ∀ b, page.bytes = some b → b = page.recomputedBytes) (hne : page.entries.entries ≠ [])
    (hcap : page.entries.entries.length ≤ cowMapMaxSegmentEntries + 1) :
    (∀ p ∈ page.splitPages, p.Ok) ∧
      (page.splitPages.flatMap fun p => p.entries.entries) = page.entries.entries := by
  have hfill : ∀ b, ({ page with bytes := some page.payloadBytes } : CowMapPage K V).bytes = some b →
      b = ({ page with bytes := some page.payloadBytes } : CowMapPage K V).recomputedBytes := by
    rintro b ⟨⟩
    exact payloadBytes_eq h
  unfold splitPages splitOversized
  dsimp only
  split_ifs with hsmall
  · have hle : page.entries.entries.length ≤ cowMapMaxSegmentEntries := by
      rcases hsmall with hone | hfits
      · exact hone.trans (by decide)
      · exact hfits.1
    refine ⟨fun p hp => ?_, by simp⟩
    rw [mem_singleton.1 hp]
    exact ⟨hne, hle, hfill⟩
  · rw [not_or] at hsmall
    obtain ⟨l₁, e, l₂, hl, hl₁, hkey⟩ := splitKey_some
      { page with bytes := some page.payloadBytes } (not_le.1 hsmall.1)
    obtain ⟨hleft, hright, happ⟩ := splitOff_spec hfill hl hl₁ hcap
    rw [hkey]
    refine ⟨fun p hp => ?_, by simpa using happ⟩
    rcases mem_cons.1 hp with rfl | hp
    · exact hleft
    · rw [mem_singleton.1 hp]
      exact hright

end CowMapPage

namespace CowSegmentedMap

variable {K V : Type*} [Ord K]

def flat (pages : List (CowMapPage K V)) : List (K × V) := pages.flatMap fun p => p.entries.entries

@[simp] lemma flat_nil : flat ([] : List (CowMapPage K V)) = [] := rfl

@[simp] lemma flat_cons (p : CowMapPage K V) (ps : List (CowMapPage K V)) :
    flat (p :: ps) = p.entries.entries ++ flat ps := rfl

@[simp] lemma flat_append (ps qs : List (CowMapPage K V)) :
    flat (ps ++ qs) = flat ps ++ flat qs := flatMap_append

lemma mem_flat {ps : List (CowMapPage K V)} :
    e ∈ flat ps ↔ ∃ p ∈ ps, e ∈ p.entries.entries := mem_flatMap

lemma filter_flat (q : K × V → Bool) (ps : List (CowMapPage K V)) :
    (ps.flatMap fun p => p.entries.entries.filter q) = (flat ps).filter q := by
  rw [flat, filter_flatMap]

variable {α : Type*}

lemma partitionPoint_cases (p : α → Bool) : ∀ l, (∀ x ∈ l, p x) ∧ partitionPoint p l = l.length ∨
      ∃ L x R, l = L ++ x :: R ∧ (∀ y ∈ L, p y) ∧ p x = false ∧ partitionPoint p l = L.length
  | [] => .inl ⟨by simp, rfl⟩
  | x :: l => by
    rcases hx : p x
    · exact .inr ⟨[], x, l, rfl, by simp, hx, by simp [partitionPoint, hx]⟩
    have hpoint : partitionPoint p (x :: l) = partitionPoint p l + 1 := by
      simp [partitionPoint, hx]
    rcases partitionPoint_cases p l with ⟨hall, hlen⟩ | ⟨L, y, R, rfl, hL, hy, hlen⟩
    · exact .inl ⟨by simpa [hx] using hall, by rw [hpoint, hlen, length_cons]⟩
    · exact .inr ⟨x :: L, y, R, rfl, by simpa [hx] using hL, hy, by rw [hpoint, hlen, length_cons]⟩

variable {L R : List (CowMapPage K V)}

lemma iter_eq {m : CowSegmentedMap K V} {page : CowMapPage K V} (h : m.segments = L ++ page :: R)
    :
    m.iter = flat L ++ (page.entries.entries ++ flat R) := by
  show flat m.segments = _
  rw [h, flat_append, flat_cons]

variable {q : K → Bool}

section

variable [Std.TransOrd K]

lemma lastKey_of_mem {p : CowMapPage K V} (h : lastKey q p)
    (hq : ∀ a b, rank a ≤ rank b → q b → q a) : ∀ e ∈ p.entries.entries, q e.1 := by
  obtain ⟨z, hz, hqz⟩ := (any_eq_true _ _).1 h
  exact fun e he => hq _ _ (rank_le_of_getLast? p.entries.sorted hz e he) hqz

lemma flat_of_lastKey (hL : ∀ p ∈ L, lastKey q p)
    (hq : ∀ a b, rank a ≤ rank b → q b → q a) : ∀ e ∈ flat L, q e.1 := by
  intro e he
  obtain ⟨p, hp, hep⟩ := mem_flat.1 he
  exact lastKey_of_mem (hL p hp) hq e hep

lemma isLT_mono {key a b : K} (hab : rank a ≤ rank b) (hb : (compare b key).isLT) :
    (compare a key).isLT = true := by
  rw [Ordering.isLT_iff_eq_lt, ← rank_lt_rank] at hb ⊢
  exact hab.trans_lt hb

lemma isLE_mono {key a b : K} (hab : rank a ≤ rank b) (hb : (compare b key).isLE) :
    (compare a key).isLE = true := by
  rw [← rank_le_rank] at hb ⊢
  exact hab.trans hb

lemma lt_flat_of_not_lastKey {page : CowMapPage K V} (hne : page.entries.entries ≠ [])
    (hs : SortedKeys (flat (page :: R)))
    (h : lastKey (fun last => (compare last key).isLT) page = false) :
    ∀ e ∈ flat R, compare key e.1 = .lt := by
  obtain ⟨z, hz⟩ : ∃ z, page.entries.entries.getLast? = some z := ⟨_, getLast?_eq_some_getLast hne⟩
  have hzk : rank key ≤ rank z.1 := by
    rw [lastKey, hz, any_some, ← Bool.not_eq_true, Ordering.isLT_iff_eq_lt, ← rank_lt_rank] at h
    exact not_lt.1 h
  intro e he
  rw [← rank_lt_rank]
  refine hzk.trans_lt (rank_lt_rank.2 ?_)
  exact (sortedKeys_append.1 hs).2.2 z (mem_of_getLast? hz) e he

/-- Where a map looks for a key: nowhere in an empty one, and else in a page with what is below the
key to its left and what is above it to its right. -/
def Located (m : CowSegmentedMap K V) (key : K) : Prop :=
  m.segments = [] ∧ m.segmentIndex key = none ∧ m.segmentFor key = none ∨
    ∃ L page R, m.segments = L ++ page :: R ∧ m.segmentIndex key = some L.length ∧
      m.segmentFor key = some (L.length, page) ∧
      (∀ e ∈ flat L, compare e.1 key = .lt) ∧ (∀ e ∈ flat R, compare key e.1 = .lt)

lemma segmentFor_spec {m : CowSegmentedMap K V} (hne : ∀ p ∈ m.segments, p.entries.entries ≠ [])
    (hs : SortedKeys (flat m.segments)) (key : K) : m.Located key := by
  -- it is enough to give the parts and the position
  suffices h : m.segments = [] ∨ ∃ L page R, m.segments = L ++ page :: R ∧
      min (partitionPoint (lastKey fun last => (compare last key).isLT) m.segments)
        (m.segments.length - 1) = L.length ∧
      (∀ e ∈ flat L, (compare e.1 key).isLT) ∧ (∀ e ∈ flat R, compare key e.1 = .lt) by
    rcases h with hnil | ⟨L, page, R, hseg, hpoint, hL, hR⟩
    · exact .inl ⟨hnil, by simp [segmentIndex, hnil], by simp [segmentFor, segmentIndex, hnil]⟩
    have hindex : m.segmentIndex key = some L.length := by
      rw [segmentIndex, if_neg (by simp [hseg])]
      exact congrArg some hpoint
    refine .inr ⟨L, page, R, hseg, hindex, ?_, fun e he => by simpa using hL e he, hR⟩
    simp [segmentFor, hindex, hseg]
  rcases partitionPoint_cases (lastKey fun last => (compare last key).isLT) m.segments with
    ⟨hall, hpoint⟩ | ⟨L, page, R, hseg, hL, hpage, hpoint⟩
  · -- every page ends below the key: the last one takes it
    rcases eq_nil_or_concat m.segments with hnil | ⟨L, page, hseg⟩
    · exact .inl hnil
    rw [concat_eq_append] at hseg
    refine .inr ⟨L, page, [], hseg, ?_, ?_, by simp⟩
    · rw [hpoint, hseg]
      simp
    · exact flat_of_lastKey (fun p hp => hall p (by simp [hseg, hp])) fun _ _ => isLT_mono
  · refine .inr ⟨L, page, R, hseg, ?_, flat_of_lastKey hL fun _ _ => isLT_mono, ?_⟩
    · rw [hpoint, hseg]
      simp
    · rw [hseg, flat_append] at hs
      exact lt_flat_of_not_lastKey (hne page (by simp [hseg])) (sortedKeys_append.1 hs).2.1 hpage

end

variable [CowPageWeight K] [CowPageWeight V]

/-- The representation invariant. -/
structure Inv (m : CowSegmentedMap K V) : Prop where
  ok : ∀ p ∈ m.segments, p.Ok
  sorted : SortedKeys m.iter
  len_eq : m.len = m.iter.length
  pressure_eq : m.deltaPressureBytes = entriesPressure m.iter

/-- The ordered map a segmented map stands for. -/
def Inv.contents {m : CowSegmentedMap K V} (h : m.Inv) : OrdMap K V := ⟨m.iter, h.sorted⟩

lemma inv_empty : (empty : CowSegmentedMap K V).Inv where
  ok := by simp [empty]
  sorted := Pairwise.nil
  len_eq := rfl
  pressure_eq := rfl

/-- What the pages of a map are to one another and to its counts. -/
structure Representation (m : CowSegmentedMap K V) : Prop where
  nonempty : ∀ p ∈ m.segments, p.entries.entries ≠ []
  ascending : m.segments.Pairwise fun p q =>
    ∀ a ∈ p.entries.entries, ∀ b ∈ q.entries.entries, compare a.1 b.1 = .lt
  capacity : ∀ p ∈ m.segments, p.entries.entries.length ≤ cowMapMaxSegmentEntries
  len_eq : m.len = (m.segments.map fun p => p.entries.entries.length).sum
  bytes : ∀ p ∈ m.segments, ∀ b, p.bytes = some b → b = p.recomputedBytes

variable {m : CowSegmentedMap K V}

lemma Inv.representation (h : m.Inv) : m.Representation where
  nonempty p hp := (h.ok p hp).nonempty
  ascending := (pairwise_flatMap.1 h.sorted).2
  capacity p hp := (h.ok p hp).capacity
  len_eq := h.len_eq.trans length_flatMap
  bytes p hp := (h.ok p hp).bytes

lemma Inv.of_parts (h : m.Inv) (hseg : m.segments = L ++ page :: R) {m' : CowSegmentedMap K V}
    (hseg' : m'.segments = L ++ (N ++ R)) (hN : ∀ p ∈ N, p.Ok) (hsorted : SortedKeys m'.iter)
    (hlen : m'.len = m'.iter.length) (hpressure : m'.deltaPressureBytes = entriesPressure m'.iter) :
    m'.Inv where
  ok := by
    intro p hp
    rw [hseg', mem_append, mem_append] at hp
    rcases hp with hp | hp | hp
    · exact h.ok p (by simp [hseg, hp])
    · exact hN p hp
    · exact h.ok p (by simp [hseg, hp])
  sorted := hsorted
  len_eq := hlen
  pressure_eq := hpressure

lemma insertIdx_append_length (x : α) : ∀ l r, (l ++ r).insertIdx l.length x = l ++ x :: r
  | [], _ => rfl
  | a :: l, r => by
    rw [cons_append, length_cons, insertIdx_succ_cons, insertIdx_append_length x l r, cons_append]

lemma putSplit_eq (L R : List (CowMapPage K V)) (page new : CowMapPage K V) :
    putSplit (L ++ page :: R) L.length new = L ++ (new.splitPages ++ R) := by
  unfold putSplit splitPages
  rcases new.splitOversized with ⟨left, _ | right⟩
  · simp
  have hset : (L ++ page :: R).set L.length left = (L ++ [left]) ++ R := by simp
  have hinsert := insertIdx_append_length right (L ++ [left]) R
  rw [length_append, length_singleton] at hinsert
  simp only [hset, hinsert]
  simp

variable [Std.TransOrd K]

lemma Inv.located (h : m.Inv) (key : K) : m.Located key :=
  segmentFor_spec (fun p hp => (h.ok p hp).nonempty) h.sorted key

lemma Inv.get_page (h : m.Inv) {page : CowMapPage K V}
    (hseg : m.segments = L ++ page :: R) (hL : ∀ e ∈ flat L, compare e.1 key = .lt)
    (hR : ∀ e ∈ flat R, compare key e.1 = .lt) : h.contents.get key = page.entries.get key := by
  show (findEntry key m.iter).map Prod.snd = _
  rw [iter_eq hseg, findEntry_append hL hR]
  rfl

lemma Inv.get_eq (h : m.Inv) (key : K) : m.get key = h.contents.get key := by
  rcases h.located key with ⟨hnil, -, hfor⟩ | ⟨L, page, R, hseg, -, hfor, hL, hR⟩
  · have hiter : m.iter = [] := by simp [iter, hnil]
    simp [get, hfor, OrdMap.get, contents, hiter, findEntry]
  · rw [h.get_page hseg hL hR, get, hfor]
    rfl

lemma Inv.insert (h : m.Inv) (shared : ℕ → Bool) (key : K) (value : V) :
    (m.insert shared key value).2.Inv ∧
      (m.insert shared key value).2.iter = insertEntry key value m.iter ∧
      (m.insert shared key value).1 = h.contents.get key := by
  rcases h.located key with ⟨hnil, -, hfor⟩ | ⟨L, page, R, hseg, -, hfor, hL, hR⟩
  · have hiter : m.iter = [] := by simp [iter, hnil]
    simp only [CowSegmentedMap.insert, hfor]
    refine ⟨⟨?_, ?_, rfl, by simp [entriesPressure, iter, CowMapPage.ofEntries, OrdMap.insert,
      OrdMap.empty, insertEntry]⟩, ?_, ?_⟩
    · intro p hp
      rw [mem_singleton.1 hp]
      exact ⟨by simp [CowMapPage.ofEntries, OrdMap.insert, OrdMap.empty, insertEntry],
        by simp [CowMapPage.ofEntries, OrdMap.insert, OrdMap.empty, insertEntry,
          cowMapMaxSegmentEntries], by simp [CowMapPage.ofEntries]⟩
    · exact pairwise_singleton _ _
    · simp [iter, hnil, CowMapPage.ofEntries, OrdMap.insert, OrdMap.empty, insertEntry]
    · simp [OrdMap.get, contents, hiter, findEntry]
  · have hok := h.ok page (by simp [hseg])
    have hprev := (h.get_page hseg hL hR).symm
    have hlen' := length_insertEntry (k := key) (v := value) page.entries.sorted
    have hcap := hok.capacity
    obtain ⟨hN, hflat⟩ := CowMapPage.splitPages_spec
      (((page.detach (shared L.length)).insert key value).2)
      (CowMapPage.insert_bytes (by simpa using hok.bytes) value)
      (by
        refine ne_nil_of_length_pos ?_
        simp only [CowMapPage.insert, CowMapPage.detach_entries, OrdMap.insert]
        have := length_pos_iff.2 hok.nonempty
        omega)
      (by
        simp only [CowMapPage.insert, CowMapPage.detach_entries, OrdMap.insert]
        split_ifs at hlen' <;> omega)
    have hnew : ((page.detach (shared L.length)).insert key value).2.entries.entries =
        insertEntry key value page.entries.entries := by
      simp [CowMapPage.insert, OrdMap.insert]
    have hsegs : (m.insert shared key value).2.segments =
        L ++ (((page.detach (shared L.length)).insert key value).2.splitPages ++ R) := by
      simp only [CowSegmentedMap.insert, hfor]
      rw [hseg, putSplit_eq]
    have hiter : (m.insert shared key value).2.iter = insertEntry key value m.iter := by
      show flat (m.insert shared key value).2.segments = _
      rw [hsegs, flat_append, flat_append, iter_eq hseg, insertEntry_append_left hL,
        insertEntry_append_right hR]
      show flat L ++ ((flatMap _ _) ++ _) = _
      rw [hflat, hnew]
    have hret : (m.insert shared key value).1 = h.contents.get key := by
      simp [CowSegmentedMap.insert, hfor, CowMapPage.insert, hprev]
    refine ⟨h.of_parts hseg hsegs hN ?_ ?_ ?_, hiter, hret⟩
    · rw [hiter]
      exact sortedKeys_insertEntry h.sorted
    · rw [hiter, length_insertEntry h.sorted]
      simp only [CowSegmentedMap.insert, hfor, CowMapPage.insert, CowMapPage.detach_entries, hprev,
        h.len_eq]
      simp only [OrdMap.get, contents, isNone_map]
      rcases findEntry key m.iter <;> simp
    · have hsum := sum_insertEntry (k := key) (v := value)
        (fun e => CowPageWeight.deltaPressureBytes e.2) h.sorted
      have hle := found_le_sum (k := key) (fun e => CowPageWeight.deltaPressureBytes e.2) h.sorted
      rw [hiter]
      simp only [CowSegmentedMap.insert, hfor, CowMapPage.insert, CowMapPage.detach_entries, hprev,
        h.pressure_eq]
      simp only [OrdMap.get, contents, Option.map_map]
      unfold entriesPressure at *
      rcases hf : findEntry key m.iter with _ | e <;> rw [hf] at hsum hle <;>
        simp only [map_none, map_some, getD_none, getD_some,
          Function.comp_apply] at hsum hle ⊢ <;> omega

lemma Inv.get_of_iter {m' : CowSegmentedMap K V} (h : m.Inv) (h' : m'.Inv)
    (hiter : m'.iter = m.iter) (key : K) : m'.get key = m.get key := by
  rw [h.get_eq, h'.get_eq]
  show (findEntry key m'.iter).map _ = (findEntry key m.iter).map _
  rw [hiter]

lemma Inv.get_insert (h : m.Inv) (shared : ℕ → Bool) (key : K) (value : V) (key' : K) :
    (m.insert shared key value).2.get key' =
      if compare key' key = .eq then some value else m.get key' := by
  obtain ⟨hinv, hiter, -⟩ := h.insert shared key value
  have hcontents : hinv.contents = h.contents.insert key value := ext hiter
  rw [hinv.get_eq, h.get_eq, hcontents, OrdMap.get_insert]

omit [Std.TransOrd K] in
lemma splitOversized_epochBounds {page : CowMapPage K V} (h : page.epochBounds = none) :
    ∀ p ∈ page.splitPages, p.epochBounds = none := by
  intro p hp
  unfold splitPages splitOversized at hp
  dsimp only at hp
  split_ifs at hp
  · simp only [toList_none, mem_singleton] at hp
    rw [hp, h]
  split at hp
  · simp only [toList_some, mem_cons, not_mem_nil, or_false] at hp
    rcases hp with rfl | rfl <;> rfl
  · simp only [toList_none, mem_singleton] at hp
    rw [hp, h]

lemma Inv.insert_pages (h : m.Inv) (shared : ℕ → Bool) (key : K) (value : V) :
    ∀ p ∈ (m.insert shared key value).2.segments, p ∈ m.segments ∨ p.epochBounds = none := by
  intro p hp
  rcases h.located key with ⟨-, -, hfor⟩ | ⟨L, page, R, hseg, -, hfor, -, -⟩
  · simp only [CowSegmentedMap.insert, hfor, mem_singleton] at hp
    exact .inr (by rw [hp]; rfl)
  simp only [CowSegmentedMap.insert, hfor] at hp
  rw [hseg, putSplit_eq] at hp
  rcases mem_append.1 hp with hp | hp
  · exact .inl (by simp [hseg, hp])
  · rcases mem_append.1 hp with hp | hp
    · exact .inr (splitOversized_epochBounds rfl p hp)
    · exact .inl (by simp [hseg, hp])

omit [Std.TransOrd K] in
lemma Inv.map_pages (h : m.Inv) {f : CowMapPage K V → CowMapPage K V}
    (hentries : ∀ p, (f p).entries = p.entries) (hbytes : ∀ p, (f p).bytes = p.bytes) :
    ({ m with segments := m.segments.map f } : CowSegmentedMap K V).Inv ∧
      ({ m with segments := m.segments.map f } : CowSegmentedMap K V).iter = m.iter := by
  have hiter : ({ m with segments := m.segments.map f } : CowSegmentedMap K V).iter = m.iter := by
    simp [iter, flatMap_map, hentries]
  refine ⟨⟨fun p hp => ?_, hiter ▸ h.sorted, hiter ▸ h.len_eq, hiter ▸ h.pressure_eq⟩, hiter⟩
  obtain ⟨q, hq, rfl⟩ := mem_map.1 hp
  obtain ⟨hne, hcap, hb⟩ := h.ok q hq
  refine ⟨by rwa [hentries], by rwa [hentries], fun b hfb => ?_⟩
  rw [hbytes] at hfb
  rw [hb b hfb, recomputedBytes, recomputedBytes, hentries]

lemma Inv.rebalanceKey (h : m.Inv) (shared : ℕ → Bool) (key : K) :
    (m.rebalanceKey shared key).Inv ∧ (m.rebalanceKey shared key).iter = m.iter := by
  rcases h.located key with ⟨-, -, hfor⟩ | ⟨L, page, R, hseg, -, hfor, -, -⟩
  · simpa only [CowSegmentedMap.rebalanceKey, hfor] using ⟨h, trivial⟩
  have hok := h.ok page (by simp [hseg])
  obtain ⟨hN, hflat⟩ := splitPages_spec (page.detach (shared L.length))
    (by simpa using hok.bytes) (by simpa using hok.nonempty)
    (by simpa using hok.capacity.trans (Nat.le_succ _))
  have hsegs : (m.rebalanceKey shared key).segments =
      L ++ ((page.detach (shared L.length)).splitPages ++ R) := by
    simp only [CowSegmentedMap.rebalanceKey, hfor]
    rw [hseg, putSplit_eq]
  have hiter : (m.rebalanceKey shared key).iter = m.iter := by
    show flat (m.rebalanceKey shared key).segments = _
    rw [hsegs, flat_append, flat_append, iter_eq hseg]
    show flat L ++ ((flatMap _ _) ++ _) = _
    rw [hflat, detach_entries]
  refine ⟨h.of_parts hseg hsegs hN (hiter ▸ h.sorted) ?_ ?_, hiter⟩
  · rw [hiter, ← h.len_eq]
    simp only [CowSegmentedMap.rebalanceKey, hfor]
  · rw [hiter, ← h.pressure_eq]
    simp only [CowSegmentedMap.rebalanceKey, hfor]

lemma Inv.getMut (h : m.Inv) (shared : ℕ → Bool) (key : K) (f : V → V) :
    (m.getMut shared key f).2.Inv ∧ (m.getMut shared key f).2.iter = updateEntry key f m.iter ∧
      (m.getMut shared key f).1 = h.contents.get key := by
  rcases h.located key with ⟨hnil, -, hfor⟩ | ⟨L, page, R, hseg, -, hfor, hL, hR⟩
  · have hiter : m.iter = [] := by simp [iter, hnil]
    simp only [CowSegmentedMap.getMut, hfor]
    exact ⟨h, by simp [hiter, updateEntry], by simp [OrdMap.get, contents, hiter, findEntry]⟩
  rcases hget : page.entries.get key with _ | value
  · simp only [CowSegmentedMap.getMut, hfor, hget]
    rw [h.get_page hseg hL hR, hget]
    refine ⟨h, ?_, rfl⟩
    rw [iter_eq hseg, updateEntry_append hL hR, updateEntry_of_get_none hget]
  · have hok := h.ok page (by simp [hseg])
    have hsegs : (m.getMut shared key f).2.segments =
        L ++ ([(page.detach (shared L.length)).editValue key f] ++ R) := by
      simp only [CowSegmentedMap.getMut, hfor, hget]
      rw [hseg]
      simp
    have hentries : ((page.detach (shared L.length)).editValue key f).entries.entries =
        updateEntry key f page.entries.entries := by
      simp [editValue, update]
    have hiter : (m.getMut shared key f).2.iter = updateEntry key f m.iter := by
      show flat (m.getMut shared key f).2.segments = _
      rw [hsegs, flat_append, flat_append, iter_eq hseg, updateEntry_append hL hR, flat_cons,
        hentries]
      simp
    refine ⟨h.of_parts hseg hsegs ?_ ?_ ?_ ?_, hiter, ?_⟩
    · intro p hp
      rw [mem_singleton.1 hp]
      exact ⟨by simpa [hentries, updateEntry] using hok.nonempty,
        by simpa [hentries, updateEntry] using hok.capacity,
        editValue_bytes (by simpa using hok.bytes) f⟩
    · rw [hiter]
      exact (h.contents.update key f).sorted
    · rw [hiter]
      simp only [CowSegmentedMap.getMut, hfor, hget]
      simp [updateEntry, h.len_eq]
    · have hsum := sum_updateEntry (k := key) (fun e => CowPageWeight.deltaPressureBytes e.2) f
        h.sorted
      have hle := found_le_sum (k := key) (fun e => CowPageWeight.deltaPressureBytes e.2) h.sorted
      have hfound := h.get_page hseg hL hR
      rw [hget] at hfound
      obtain ⟨e, he, hev⟩ := map_eq_some_iff.1 hfound
      change findEntry key m.iter = some e at he
      rw [he] at hsum hle
      rw [hiter]
      simp only [CowSegmentedMap.getMut, hfor, hget, h.pressure_eq, ← hev]
      unfold entriesPressure at *
      simp only [map_some, getD_some] at hsum hle
      omega
    · rw [h.get_page hseg hL hR, hget]
      simp only [CowSegmentedMap.getMut, hfor, hget]

lemma Inv.remove (h : m.Inv) (shared : ℕ → Bool) (key : K) :
    (m.remove shared key).2.Inv ∧ (m.remove shared key).2.iter = removeEntry key m.iter ∧
      (m.remove shared key).1 = h.contents.get key := by
  rcases h.located key with ⟨hnil, -, hfor⟩ | ⟨L, page, R, hseg, -, hfor, hL, hR⟩
  · have hiter : m.iter = [] := by simp [iter, hnil]
    simp only [CowSegmentedMap.remove, hfor]
    exact ⟨h, by simp [hiter, removeEntry], by simp [OrdMap.get, contents, hiter, findEntry]⟩
  rcases hget : page.entries.get key with _ | value
  · simp only [CowSegmentedMap.remove, hfor, hget]
    rw [h.get_page hseg hL hR, hget]
    refine ⟨h, ?_, rfl⟩
    rw [iter_eq hseg, removeEntry_append hL hR, removeEntry_of_get_none hget]
  · have hok := h.ok page (by simp [hseg])
    have hentries : ((page.detach (shared L.length)).remove key).2.entries.entries =
        removeEntry key page.entries.entries := by
      simp [CowMapPage.remove, OrdMap.remove]
    obtain ⟨N, hN, hflat, hsegs⟩ : ∃ N, (∀ p ∈ N, p.Ok) ∧
        flat N = removeEntry key page.entries.entries ∧
        (m.remove shared key).2.segments = L ++ (N ++ R) := by
      simp only [CowSegmentedMap.remove, hfor, hget]
      split_ifs with hempty
      · refine ⟨[], by simp, by rw [← hentries, hempty]; rfl, ?_⟩
        rw [hseg, eraseIdx_append_of_length_le le_rfl]
        simp
      refine ⟨[((page.detach (shared L.length)).remove key).2], fun p hp => ?_,
        by simp [hentries], by simp [hseg]⟩
      rw [mem_singleton.1 hp]
      exact ⟨hempty, hentries ▸ (length_filter_le _ _).trans hok.capacity,
        remove_bytes (by simpa using hok.bytes)⟩
    have hiter : (m.remove shared key).2.iter = removeEntry key m.iter := by
      show flat (m.remove shared key).2.segments = _
      rw [hsegs, flat_append, flat_append, iter_eq hseg, removeEntry_append hL hR, hflat]
    have hfound := h.get_page hseg hL hR
    rw [hget] at hfound
    obtain ⟨e, he, hev⟩ := map_eq_some_iff.1 hfound
    change findEntry key m.iter = some e at he
    refine ⟨h.of_parts hseg hsegs hN ?_ ?_ ?_, hiter, ?_⟩
    · rw [hiter]
      exact (h.contents.remove key).sorted
    · have hsum := sum_removeEntry (k := key) (fun _ => 1) h.sorted
      rw [he] at hsum
      rw [hiter]
      simp only [CowSegmentedMap.remove, hfor, hget, h.len_eq]
      simp only [map_const', sum_replicate, smul_eq_mul, mul_one, map_some, getD_some] at hsum
      omega
    · have hsum := sum_removeEntry (k := key) (fun e => CowPageWeight.deltaPressureBytes e.2)
        h.sorted
      rw [he] at hsum
      rw [hiter]
      simp only [CowSegmentedMap.remove, hfor, hget, h.pressure_eq, ← hev]
      unfold entriesPressure at *
      simp only [map_some, getD_some] at hsum
      omega
    · rw [hfound]
      simp only [CowSegmentedMap.remove, hfor, hget]

section

omit [Std.TransOrd K]

variable {σ : Type*} (shared : ℕ → Bool) (keep : σ → K → V → σ × V × Bool)

omit [CowPageWeight K] in
lemma retainLoop_entries : ∀ index s (ps : List (CowMapPage K V)) (c : ℕ × ℕ),
    (retainLoop shared keep index s ps c).1 = (retainEntries keep s (flat ps)).1 ∧
      flat (retainLoop shared keep index s ps c).2.1 = (retainEntries keep s (flat ps)).2
  | _, _, [], _ => ⟨rfl, rfl⟩
  | index, s, p :: ps, (len, pressure) => by
    simp only [retainLoop, OrdMap.retain, flat_cons, retainEntries_append]
    obtain ⟨hs, hflat⟩ := retainLoop_entries (index + 1)
      (retainEntries keep s p.entries.entries).1 ps _
    exact ⟨hs, by rw [hflat]⟩

omit [CowPageWeight K] in
lemma retainLoop_pages : ∀ index s (ps : List (CowMapPage K V)) (c : ℕ × ℕ),
    (∀ p ∈ ps, p.entries.entries.length ≤ cowMapMaxSegmentEntries) →
      ∀ p ∈ (retainLoop shared keep index s ps c).2.1,
        p.entries.entries.length ≤ cowMapMaxSegmentEntries ∧ p.bytes = none
  | _, _, [], _ => by simp [retainLoop]
  | index, s, p :: ps, (len, pressure) => by
    intro hcap q hq
    simp only [retainLoop] at hq
    rcases mem_cons.1 hq with rfl | hq
    · have hsub := (retainEntries_keys keep s p.entries.entries).length_le
      simp only [length_map] at hsub
      exact ⟨hsub.trans (hcap p mem_cons_self), rfl⟩
    · exact retainLoop_pages (index + 1) _ ps _ (fun q hq => hcap q (mem_cons_of_mem _ hq)) q hq

omit [Ord K] [CowPageWeight K] in
lemma entriesPressure_append (l l' : List (K × V)) :
    entriesPressure (l ++ l') = entriesPressure l + entriesPressure l' := by
  simp [entriesPressure]

omit [CowPageWeight K] in
lemma retainLoop_counts : ∀ index s (ps : List (CowMapPage K V)) (a b : ℕ),
    (retainLoop shared keep index s ps (a + (flat ps).length, b + entriesPressure (flat ps))).2.2 =
        (a + (retainEntries keep s (flat ps)).2.length,
          b + entriesPressure (retainEntries keep s (flat ps)).2)
  | _, _, [], _, _ => rfl
  | index, s, p :: ps, a, b => by
    have ih := retainLoop_counts (index + 1) (retainEntries keep s p.entries.entries).1 ps
      (a + (retainEntries keep s p.entries.entries).2.length)
      (b + entriesPressure (retainEntries keep s p.entries.entries).2)
    have hlen : a + (p.entries.entries ++ flat ps).length - p.entries.entries.length +
        (retainEntries keep s p.entries.entries).2.length =
          a + (retainEntries keep s p.entries.entries).2.length + (flat ps).length := by
      rw [length_append]
      omega
    have hpressure : b + entriesPressure (p.entries.entries ++ flat ps) -
        entriesPressure p.entries.entries +
          entriesPressure (retainEntries keep s p.entries.entries).2 =
        b + entriesPressure (retainEntries keep s p.entries.entries).2 +
          entriesPressure (flat ps) := by
      rw [entriesPressure_append]
      omega
    simp only [retainLoop, OrdMap.retain, flat_cons, retainEntries_append, hlen, hpressure]
    rw [length_append, entriesPressure_append, ← Nat.add_assoc, ← Nat.add_assoc, ← ih]

omit [CowPageWeight K] [CowPageWeight V] in
lemma flat_filter_nonempty (ps : List (CowMapPage K V)) :
    flat (ps.filter fun p => p.entries.entries ≠ []) = flat ps := by
  induction ps with
  | nil => rfl
  | cons p ps ih =>
    by_cases hp : p.entries.entries = []
    · rw [filter_cons_of_neg (by simpa using hp), ih, flat_cons, hp, nil_append]
    · rw [filter_cons_of_pos (by simpa using hp), flat_cons, flat_cons, ih]

lemma Inv.retain (h : m.Inv) (s : σ) : (m.retain shared keep s).2.Inv ∧
    (m.retain shared keep s).2.iter = (retainEntries keep s m.iter).2 ∧
    (m.retain shared keep s).1 = (retainEntries keep s m.iter).1 := by
  obtain ⟨hs, hflat⟩ := retainLoop_entries shared keep 0 s m.segments (m.len, m.deltaPressureBytes)
  have hcount := retainLoop_counts shared keep 0 s m.segments 0 0
  have hstart : (0 + (flat m.segments).length, 0 + entriesPressure (flat m.segments)) =
      (m.len, m.deltaPressureBytes) := by
    rw [h.len_eq, h.pressure_eq, Nat.zero_add, Nat.zero_add]
    rfl
  rw [hstart, Nat.zero_add, Nat.zero_add] at hcount
  have hiter : (m.retain shared keep s).2.iter = (retainEntries keep s m.iter).2 := by
    show flat (filter _ _) = _
    rw [flat_filter_nonempty, hflat]
    rfl
  refine ⟨⟨?_, ?_, ?_, ?_⟩, hiter, hs⟩
  · intro p hp
    obtain ⟨hmem, hne⟩ := mem_filter.1 hp
    obtain ⟨hcap, hbytes⟩ := retainLoop_pages shared keep 0 s m.segments _
      (fun p hp => (h.ok p hp).capacity) p hmem
    exact ⟨by simpa using hne, hcap, by simp [hbytes]⟩
  · rw [hiter]
    exact (h.contents.retain keep s).2.sorted
  · rw [hiter]
    exact congrArg Prod.fst hcount
  · rw [hiter]
    exact congrArg Prod.snd hcount

end

section

omit [CowPageWeight K] [CowPageWeight V] [Std.TransOrd K] in
lemma of_mem_take_partitionPoint {p : α → Bool} {l : List α}
    (h : x ∈ l.take (partitionPoint p l)) : p x := by
  rw [partitionPoint, ← prefix_iff_eq_take.1 ( takeWhile_prefix p)] at h
  exact mem_takeWhile_imp h

lemma Inv.entryOrDefault [Inhabited V] (h : m.Inv) (shared shared' : ℕ → Bool) (key : K)
    (f : V → V) :
    let entry := if (h.contents.get key).isSome then h.contents else h.contents.insert key default
    (m.entryOrDefault shared shared' key f).2.Inv ∧
      (m.entryOrDefault shared shared' key f).2.iter = (entry.update key f).entries ∧
      (m.entryOrDefault shared shared' key f).1 = entry.get key := by
  unfold CowSegmentedMap.entryOrDefault CowSegmentedMap.containsKey
  rw [h.get_eq]
  split_ifs with hc
  · exact h.getMut shared key f
  obtain ⟨hinv, hiter, -⟩ := h.insert shared key default
  have hcontents : hinv.contents = h.contents.insert key default := ext hiter
  obtain ⟨hinv', hiter', hget⟩ := hinv.getMut shared' key f
  rw [hcontents] at hget
  exact ⟨hinv', hiter'.trans (by rw [hiter]; rfl), hget⟩

omit [CowPageWeight K] [CowPageWeight V] in
/-- Dropping pages that end early enough loses nothing of what comes later. -/
theorem filter_flat_drop {ps : List (CowMapPage K V)} {r : K × V → Bool}
    (hps : ∀ p ∈ ps.take n, lastKey q p) (hq : ∀ a b, rank a ≤ rank b → q b → q a)
    (hr : ∀ e, q e.1 → r e = false) : (flat (ps.drop n)).filter r = (flat ps).filter r := by
  have hnone : (flat (ps.take n)).filter r = [] :=
    filter_eq_nil_iff.2 fun e he => by simp [hr e (flat_of_lastKey hps hq e he)]
  conv_rhs => rw [← take_append_drop n ps, flat_append, filter_append, hnone]
  rfl

lemma Inv.iterAfter_eq (h : m.Inv) (after : Option K) :
    m.iterAfter after = h.contents.iterAfter after := by
  show flatMap (fun p : CowMapPage K V => p.entries.entries.filter _) _ = (flat m.segments).filter _
  rw [filter_flat]
  rcases after with _ | key
  · rfl
  rcases h.located key with ⟨hnil, hindex, -⟩ | ⟨L, page, R, hseg, hindex, -, hL, -⟩
  · simp [hnil]
  have hnone : ((flat L).filter fun e => (some key).all fun k => (compare k e.1).isLT) = [] :=
    filter_eq_nil_iff.2 fun e he => by simp [compare_gt_iff.2 (hL e he)]
  rw [bind_some, hindex, getD_some, hseg, drop_left, flat_append, filter_append, hnone, nil_append]

lemma Inv.firstAfter_eq (h : m.Inv) (lower : Option K) :
    m.firstAfter lower = (h.contents.iterAfter lower).head? := by
  show findSome? (fun p : CowMapPage K V => (p.entries.entries.filter _).head?) _ =
    ((flat m.segments).filter _).head?
  rw [← head?_flatMap, filter_flat]
  rcases lower with _ | key
  · rfl
  refine congrArg head? (filter_flat_drop (fun p hp => of_mem_take_partitionPoint hp)
    (fun _ _ => isLE_mono) fun e he => ?_)
  rw [all_some, ← Bool.not_eq_true, Ordering.isLT_iff_eq_lt, ← rank_lt_rank, not_lt]
  exact rank_le_rank.2 he

/-- The pages from the stop of a range on start above its last key. -/
theorem Inv.filter_flat_take (h : m.Inv) {r : K × V → Bool}
    (hr : ∀ e, rank last < rank e.1 → r e = false) : (flat (m.segments.take
      (partitionPoint (firstKey fun key => (compare key last).isLE) m.segments))).filter r =
      (flat m.segments).filter r := by
  rcases partitionPoint_cases (firstKey fun key => (compare key last).isLE) m.segments with
    ⟨-, hpoint⟩ | ⟨L, page, R, hseg, -, hpage, hpoint⟩
  · rw [hpoint, take_length]
  · have hsorted : SortedKeys (flat (page :: R)) :=
      (sortedKeys_append.1 (iter_eq hseg ▸ h.sorted)).2.1
    obtain ⟨z, l, hz⟩ := exists_cons_of_ne_nil (h.ok page (by simp [hseg])).nonempty
    have hlast : rank last < rank z.1 := by
      rw [firstKey, hz, head?_cons, any_some, ← Bool.not_eq_true, ← rank_le_rank, not_le] at hpage
      exact hpage
    have hnone : (flat (page :: R)).filter r = [] := by
      refine filter_eq_nil_iff.2 fun e he => ?_
      have hze := rank_ge_of_head? hsorted (z := z) (by simp [hz]) e he
      simp [hr e (hlast.trans_le hze)]
    rw [hpoint, hseg, take_left, flat_append, filter_append, hnone, append_nil]

lemma Inv.range_eq (h : m.Inv) (first last : K) :
    m.range first last = h.contents.range first last := by
  unfold CowSegmentedMap.range
  split_ifs with hle
  · have hpages : ∀ ps : List (CowMapPage K V),
        (ps.flatMap fun p => (p.entries.range first last).getD []) =
          (flat ps).filter fun e => (compare first e.1).isLE && (compare e.1 last).isLE := by
      intro ps
      simp only [← filter_flat, OrdMap.range, hle, if_true, getD_some]
    dsimp only
    rw [hpages, OrdMap.range, if_pos hle]
    refine congrArg some ?_
    rw [filter_flat_drop (q := fun key => (compare key first).isLT) (fun p hp => ?_)
      (fun _ _ => isLT_mono) (fun e he => ?_)]
    · refine h.filter_flat_take fun e he => ?_
      rw [Bool.and_eq_false_iff]
      right
      rw [← Bool.not_eq_true, ← rank_le_rank, not_le]
      exact he
    · rw [take_take] at hp
      exact of_mem_take_partitionPoint (take_subset_take_left _ (min_le_left _ _) hp)
    · rw [Bool.and_eq_false_iff]
      left
      rw [Ordering.isLT_iff_eq_lt, ← rank_lt_rank] at he
      rw [← Bool.not_eq_true, ← rank_le_rank, not_le]
      exact he
  · rw [OrdMap.range, if_neg hle]

end

omit [CowPageWeight K] [CowPageWeight V] in
lemma insertEntry_eq_append {e : K × V}
    (h : ∀ a ∈ l, compare a.1 e.1 = .lt) : insertEntry e.1 e.2 l = l ++ [e] := by
  have happ : insertEntry e.1 e.2 (l ++ []) = l ++ [e] := insertEntry_append_left h
  rwa [append_nil] at happ

lemma fromOrderedLoop_spec : ∀ (l : List (K × V)) (segment : OrdMap K V) (segmentBytes : ℕ),
    SortedKeys (segment.entries ++ l) → segment.entries.length ≤ cowMapMaxSegmentEntries →
      (∀ p ∈ fromOrderedLoop l segment segmentBytes, p.Ok) ∧
        flat (fromOrderedLoop l segment segmentBytes) = segment.entries ++ l
  | [], segment, _, _, hcap => by
    unfold fromOrderedLoop
    split_ifs with hempty
    · exact ⟨by simp, by simp [hempty]⟩
    · refine ⟨fun p hp => ?_, by simp [ofEntries]⟩
      rw [mem_singleton.1 hp]
      exact ⟨hempty, hcap, by simp [ofEntries]⟩
  | e :: rest, segment, segmentBytes, hs, hcap => by
    obtain ⟨-, hrest, hlt⟩ := sortedKeys_append.1 hs
    unfold fromOrderedLoop
    dsimp only
    split_ifs with hfull
    · obtain ⟨hok, hflat⟩ := fromOrderedLoop_spec rest (OrdMap.empty.insert e.1 e.2) _ hrest
        (by simp [OrdMap.insert, OrdMap.empty, insertEntry, cowMapMaxSegmentEntries])
      refine ⟨fun p hp => ?_, ?_⟩
      · rcases mem_cons.1 hp with rfl | hp
        · exact ⟨hfull.1, hcap, by simp [ofEntries]⟩
        · exact hok p hp
      · rw [flat_cons, hflat]
        rfl
    · have hinsert : (segment.insert e.1 e.2).entries = segment.entries ++ [e] :=
        insertEntry_eq_append fun a ha => hlt a ha e mem_cons_self
      have hroom : segment.entries.length + 1 ≤ cowMapMaxSegmentEntries := by
        by_cases hempty : segment.entries = []
        · simp [hempty, cowMapMaxSegmentEntries]
        · exact not_le.1 fun hle => hfull ⟨hempty, .inl hle⟩
      obtain ⟨hok, hflat⟩ := fromOrderedLoop_spec rest (segment.insert e.1 e.2) _
        (by rwa [hinsert, append_assoc]) (by rwa [hinsert, length_append])
      exact ⟨hok, by rw [hflat, hinsert, append_assoc]; rfl⟩

lemma epochBounds_fromOrderedLoop : ∀ (l : List (K × V)) (segment : OrdMap K V)
    (segmentBytes : ℕ), ∀ p ∈ fromOrderedLoop l segment segmentBytes, p.epochBounds = none
  | [], segment, _, p, hp => by
    unfold fromOrderedLoop at hp
    split_ifs at hp
    · exact absurd hp not_mem_nil
    · rw [mem_singleton.1 hp]
      rfl
  | e :: l, segment, bytes, p, hp => by
    unfold fromOrderedLoop at hp
    dsimp only at hp
    split_ifs at hp
    · rcases mem_cons.1 hp with rfl | hp
      · rfl
      · exact epochBounds_fromOrderedLoop l _ _ p hp
    · exact epochBounds_fromOrderedLoop l _ _ p hp

lemma epochBounds_ofOrdMap (values : OrdMap K V) :
    ∀ p ∈ (ofOrdMap values).segments, p.epochBounds = none :=
  epochBounds_fromOrderedLoop values.entries OrdMap.empty 0

lemma inv_ofOrdMap (values : OrdMap K V) :
    (ofOrdMap values).Inv ∧ (ofOrdMap values).iter = values.entries := by
  obtain ⟨hok, hflat⟩ := fromOrderedLoop_spec values.entries OrdMap.empty 0 values.sorted
    (by simp [OrdMap.empty])
  have hiter : (ofOrdMap values).iter = values.entries := hflat
  exact ⟨⟨hok, hiter ▸ values.sorted, by rw [hiter]; rfl, by rw [hiter]; rfl⟩, hiter⟩

end CowSegmentedMap

end HawDB
