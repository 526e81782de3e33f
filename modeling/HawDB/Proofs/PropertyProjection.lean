import HawDB.Proofs.ComparableOrder

/-!
# Scans of property projections

The first and the last value of a block rule a block out only when no value between them matches
(`rangeKeyBoundsMightMatch_of_match`). A scan of well-formed blocks therefore goes through all their
matching entries, and nothing else (`PropertyProjection.scanEntries_eq`).
-/

namespace HawDB

open List Std Option

/-! ### Blocks that are passed over -/

variable {b : Value}

lemma kindRank_le_of_isLE {a : Value} (h : (compare a b).isLE) : a.kindRank ≤ b.kindRank := by
  by_contra hlt
  have hcmp : compare a b = compare a.kindRank b.kindRank := Value.cmp_of_kindRank_ne (by omega)
  rw [hcmp, compare_gt_iff_gt.2 (by omega)] at h
  cases h

variable {v : Value} {o : Ordering}

lemma kindRank_eq_of_comparable (h : comparableValueOrdering v b = some o)
    (hb : isNumericValue b = false) : v.kindRank = b.kindRank := by
  unfold comparableValueOrdering at h
  split at h <;> try first
    | rfl
    | (simp [isNumericValue, Value.logicalType, LogicalType.isNumeric] at hb; done)
  unfold comparableOrdering at h
  split at h
  · rfl
  · rfl
  · rfl
  · rfl
  · cases h

lemma isNumericValue_of_comparable (h : comparableValueOrdering v b = some o) :
    isNumericValue v = isNumericValue b := by
  unfold comparableValueOrdering at h
  split at h <;> try rfl
  unfold comparableOrdering at h
  split at h
  · rfl
  · rfl
  · rfl
  · rfl
  · cases h

variable {homogeneous : Bool} {m : Value}

lemma kindRank_eq_of_bound (hhom : homogeneous → v.kindRank = m.kindRank)
    (hm : comparableValueOrdering m b = some o) (hv : comparableValueOrdering v b = some o')
    (h : !isNumericValue m || homogeneous) : v.kindRank = m.kindRank := by
  cases homogeneous with
  | true => exact hhom rfl
  | false =>
    rw [Bool.or_false, Bool.not_eq_true'] at h
    have hb : isNumericValue b = false := (isNumericValue_of_comparable hm).symm.trans h
    exact (kindRank_eq_of_comparable hv hb).trans (kindRank_eq_of_comparable hm hb).symm

lemma exists_of_meets (v b : Value) (inclusive : Bool) :
    (meetsLower v (some (b, inclusive)) → ∃ o, comparableValueOrdering v b = some o ∧
      (o.isLT || (o.isEq && !inclusive)) = false) ∧
    (meetsUpper v (some (b, inclusive)) → ∃ o, comparableValueOrdering v b = some o ∧
      (o.isGT || (o.isEq && !inclusive)) = false) := by
  rw [meetsLower, meetsUpper]
  rcases comparableValueOrdering v b with _ | _ | _ | _ <;> cases inclusive <;> simp

lemma excludedBelow_eq_false (hle : (compare v m).isLE)
    (hhom : homogeneous → v.kindRank = m.kindRank) (hmeets : meetsLower v lower) :
    excludedBelow homogeneous (some m) lower = false := by
  rcases lower with _ | ⟨b, inclusive⟩
  · rfl
  obtain ⟨o', hv, hmeets⟩ := (exists_of_meets v b inclusive).1 hmeets
  by_contra hexcluded
  rw [Bool.not_eq_false, excludedBelow, Bool.and_eq_true] at hexcluded
  obtain ⟨hkind, hbound⟩ := hexcluded
  obtain ⟨o, hm, ho⟩ := (any_eq_true _ _).1 hbound
  obtain ⟨α, _, _, x, y, z, hx, rfl, hxy, -⟩ :=
    exists_reading (kindRank_eq_of_bound hhom hm hv hkind) hm
  obtain rfl : o' = compare x z := some.inj (hv.symm.trans hx)
  have hle := hxy hle
  rcases hyz : compare y z with _ | _ | _
  · rw [TransCmp.lt_of_isLE_of_lt hle hyz] at hmeets
    cases hmeets
  · have hxz : (compare x z).isLE := TransCmp.isLE_trans hle (hyz ▸ rfl)
    rw [hyz] at ho
    rcases hxz' : compare x z with _ | _ | _ <;> cases inclusive <;> simp_all
  · rw [hyz] at ho
    cases ho

lemma excludedAbove_eq_false (hle : (compare m v).isLE)
    (hhom : homogeneous → v.kindRank = m.kindRank) (hmeets : meetsUpper v upper) :
    excludedAbove homogeneous (some m) upper = false := by
  rcases upper with _ | ⟨b, inclusive⟩
  · rfl
  obtain ⟨o', hv, hmeets⟩ := (exists_of_meets v b inclusive).2 hmeets
  by_contra hexcluded
  rw [Bool.not_eq_false, excludedAbove, Bool.and_eq_true] at hexcluded
  obtain ⟨hkind, hbound⟩ := hexcluded
  obtain ⟨o, hm, ho⟩ := (any_eq_true _ _).1 hbound
  obtain ⟨α, _, _, x, y, z, hx, rfl, -, hyx⟩ :=
    exists_reading (kindRank_eq_of_bound hhom hm hv hkind) hm
  obtain rfl : o' = compare x z := some.inj (hv.symm.trans hx)
  have hle := hyx hle
  rcases hyz : compare y z with _ | _ | _
  · rw [hyz] at ho
    cases ho
  · have hzx : (compare z x).isLE := TransCmp.isLE_trans (OrientedCmp.eq_comm.1 hyz ▸ rfl) hle
    rw [hyz] at ho
    have hge : (compare x z).isGE := OrientedCmp.isGE_iff_isLE.2 hzx
    rcases hxz' : compare x z with _ | _ | _ <;> cases inclusive <;> simp_all
  · have hgt : compare x z = .gt := by
      have hzy := OrientedCmp.gt_iff_lt.1 hyz
      exact OrientedCmp.gt_iff_lt.2 (TransCmp.lt_of_lt_of_isLE hzy hle)
    rw [hgt] at hmeets
    cases hmeets

lemma kindRank_eq_of_homogeneous {lo hi : Value} (hlo : (compare lo v).isLE)
    (hhi : (compare v hi).isLE) (h : homogeneousNumeric (some lo) (some hi)) :
    v.kindRank = lo.kindRank ∧ v.kindRank = hi.kindRank := by
  have hrank : lo.kindRank = hi.kindRank := by
    unfold homogeneousNumeric at h
    split at h
    · rename_i heq heq'
      rw [some.inj heq, some.inj heq']
      rfl
    · rename_i heq heq'
      rw [some.inj heq, some.inj heq']
      rfl
    · rename_i heq heq'
      rw [some.inj heq, some.inj heq']
      rfl
    · cases h
  have := kindRank_le_of_isLE hlo
  have := kindRank_le_of_isLE hhi
  omega

lemma rangeKeyBoundsMightMatch_of_match (hlo : ∀ m ∈ lo, (compare m v).isLE)
    (hhi : ∀ m ∈ hi, (compare v m).isLE) (h : rangeBoundsMatch v lower upper) :
    rangeKeyBoundsMightMatch lo hi lower upper := by
  rw [rangeBoundsMatch, Bool.and_eq_true] at h
  rw [rangeKeyBoundsMightMatch, Bool.and_eq_true, Bool.not_eq_true', Bool.not_eq_true']
  constructor
  · rcases hi with _ | hi
    · cases lower <;> rfl
    · refine excludedBelow_eq_false (hhi hi rfl) (fun hhom => ?_) h.1
      rcases lo with _ | lo
      · cases hhom
      · exact (kindRank_eq_of_homogeneous (hlo lo rfl) (hhi hi rfl) hhom).2
  · rcases lo with _ | lo
    · cases upper <;> rfl
    · refine excludedAbove_eq_false (hlo lo rfl) (fun hhom => ?_) h.2
      rcases hi with _ | hi
      · unfold homogeneousNumeric at hhom
        split at hhom <;> simp_all
      · exact (kindRank_eq_of_homogeneous (hlo lo rfl) (hhi hi rfl) hhom).1

/-! ### Scans of well-formed blocks -/

lemma isLE_of_entryCmp {a b : IndexEntry} (h : entryCmp a b = .lt) : (compare a.1 b.1).isLE := by
  unfold entryCmp at h
  rcases hab : compare a.1 b.1 with _ | _ | _
  · rfl
  · rfl
  · rw [hab] at h
    cases h

/-- A block as the writer leaves it: its entries in order, the values of the first and the last in
its descriptor, and keys of one length in a composite index. -/
structure ProjectionBlock.WellFormed (block : ProjectionBlock) : Prop where
  nonempty : block.entries ≠ []
  first : ∀ e ∈ block.entries.head?, e.1 = block.minKey
  last : ∀ e ∈ block.entries.getLast?, e.1 = block.maxKey
  sorted : block.entries.Pairwise fun a b => entryCmp a b = .lt
  arity : block.kind = .compositeEquality → ∃ properties,
    decodeCompositePropertyIdentity block.property = .ok properties ∧
      ∀ e ∈ block.entries, compositeKeyHasArity e.1 properties.length

namespace ProjectionBlock.WellFormed

variable {block : ProjectionBlock} (h : block.WellFormed) {e : IndexEntry}
include h

lemma minKey_isLE (he : e ∈ block.entries) : (compare block.minKey e.1).isLE := by
  cases hentries : block.entries with
  | nil => exact absurd hentries h.nonempty
  | cons a rest =>
    have hmin : a.1 = block.minKey := h.first a (by rw [hentries]; rfl)
    have hsorted := h.sorted
    rw [hentries] at he hsorted
    rw [← hmin]
    rcases mem_cons.1 he with rfl | he
    · rw [ReflOrd.compare_self]
      rfl
    · exact isLE_of_entryCmp ((pairwise_cons.1 hsorted).1 e he)

lemma isLE_maxKey (he : e ∈ block.entries) : (compare e.1 block.maxKey).isLE := by
  obtain ⟨front, z, hentries⟩ : ∃ front z, block.entries = front ++ [z] :=
    ⟨_, _, (dropLast_append_getLast h.nonempty).symm⟩
  have hmax : z.1 = block.maxKey := h.last z (by rw [hentries, getLast?_append]; rfl)
  have hsorted := h.sorted
  rw [hentries] at he hsorted
  rw [← hmax]
  rcases mem_append.1 he with he | he
  · exact isLE_of_entryCmp ((pairwise_append.1 hsorted).2.2 e he z (mem_singleton_self z))
  · rw [mem_singleton.1 he, ReflOrd.compare_self]
    rfl

lemma exists_first_last : ∃ a ∈ block.entries, ∃ z ∈ block.entries,
    block.entries.head? = some a ∧ block.entries.getLast? = some z ∧ a.1 = block.minKey ∧
      z.1 = block.maxKey := by
  have hhead := head?_eq_some_head h.nonempty
  have hlast := getLast?_eq_some_getLast h.nonempty
  exact ⟨_, head_mem h.nonempty, _, getLast_mem h.nonempty, hhead, hlast,
    h.first _ hhead, h.last _ hlast⟩

end ProjectionBlock.WellFormed

namespace PropertyProjection

variable {σ : Type} {block : ProjectionBlock} {valueMatches : Value → Bool}
  {consumer : σ → IndexEntry → Except ProjectionError (σ × ScanControl)}

/-- Entries in order pass the checks, and the matching ones go to the consumer until it stops. -/
theorem decodeProjectionEntries_eq : ∀ {entries}
    {previous : Option IndexEntry} {s : σ} {control : ScanControl},
    (∀ p ∈ previous, ∀ e ∈ entries.head?, entryCmp p e = .lt) →
    entries.Pairwise (fun a b => entryCmp a b = .lt) →
    (∀ n ∈ arity, ∀ e ∈ entries, compositeKeyHasArity e.1 n) →
    decodeProjectionEntries block valueMatches consumer arity previous entries (s, control) =
      resume (scanUntil consumer (entries.filter fun e => valueMatches e.1)) (s, control)
  | [], _, s, control, _, _, _ => by
    cases control <;> rfl
  | e :: rest, previous, s, control, hprevious, hsorted, harity => by
    have hkey : ¬ (arity.any fun arity => !compositeKeyHasArity e.1 arity) := by
      rw [Option.any_eq_true]
      rintro ⟨n, hn, hbad⟩
      rw [harity n hn e mem_cons_self] at hbad
      cases hbad
    have horder : ¬ (previous.any fun previous => entryCmp previous e ≠ .lt) := by
      rw [Option.any_eq_true]
      rintro ⟨p, hp, hbad⟩
      exact of_decide_eq_true hbad (hprevious p hp e rfl)
    have hrest : ∀ r,
        decodeProjectionEntries block valueMatches consumer arity (some e) rest r =
          resume (scanUntil consumer (rest.filter fun e => valueMatches e.1)) r := fun r => by
      refine decodeProjectionEntries_eq ?_ (pairwise_cons.1 hsorted).2
        fun n hn a ha => harity n hn a (mem_cons_of_mem _ ha)
      rintro p ⟨⟩ a ha
      exact (pairwise_cons.1 hsorted).1 a (mem_of_mem_head? ha)
    rw [decodeProjectionEntries, if_neg hkey, if_neg horder, funext hrest]
    cases control with
    | stop => rfl
    | proceed =>
      by_cases hmatch : valueMatches e.1
      · rw [if_pos ⟨rfl, hmatch⟩, filter_cons, if_pos hmatch]
        rfl
      · rw [if_neg fun h => hmatch h.2, filter_cons, if_neg hmatch]
        rfl

lemma scanOneBlock_eq (h : block.WellFormed) (s : σ) :
    scanOneBlock block valueMatches consumer s =
      scanUntil consumer (block.entries.filter fun e => valueMatches e.1) s := by
  obtain ⟨a, -, z, -, hhead, hlast, hmin, hmax⟩ := h.exists_first_last
  have hends : ¬ ((block.entries.head?.all fun first => !Value.eq first.1 block.minKey) ||
      block.entries.getLast?.all fun last => !Value.eq last.1 block.maxKey) := by
    rw [hhead, hlast, all_some, all_some, hmin, hmax, Value.eq_self, Value.eq_self]
    exact nofun
  have hdecode : ∀ arity, (∀ n ∈ arity, ∀ e ∈ block.entries, compositeKeyHasArity e.1 n) →
      (do
        let r ← decodeProjectionEntries block valueMatches consumer arity none block.entries
          (s, .proceed)
        if (block.entries.head?.all fun first => !Value.eq first.1 block.minKey) ||
            block.entries.getLast?.all fun last => !Value.eq last.1 block.maxKey then
          let blockId := block.blockId
          .error (.corrupt s!"property projection block {blockId} payload bounds are inconsistent")
        else .ok r) = scanUntil consumer (block.entries.filter fun e => valueMatches e.1) s := by
    intro arity harity
    rw [decodeProjectionEntries_eq (fun p hp => absurd hp (not_mem_none p)) h.sorted harity]
    simp only [if_neg hends]
    exact bind_pure _
  unfold scanOneBlock
  by_cases hkind : block.kind = .compositeEquality
  · obtain ⟨properties, hproperties, harity⟩ := h.arity hkind
    rw [if_pos hkind, hproperties]
    exact hdecode (some properties.length) fun n hn e he => by
      cases hn
      exact harity e he
  · rw [if_neg hkind]
    exact hdecode none fun n hn => absurd hn (not_mem_none n)

/-- The blocks of a definition are well formed and hold the given entries. -/
structure Indexes (projection : PropertyProjection) (kind : ProjectionKind) (labelId : UInt32)
    (property : String) (entries : List IndexEntry) : Prop where
  supported : projection.supports labelId property kind
  blocks : ∀ d ∈ projection.scanPrefix (propertyProjectionDescriptorPrefix kind labelId property),
    d.2.descriptorTreeKey = d.1 ∧ d.2.kind = kind ∧ d.2.labelId = labelId ∧
      d.2.property = property ∧ d.2.WellFormed
  entries_eq : (projection.scanPrefix (propertyProjectionDescriptorPrefix kind labelId property)
    ).flatMap (·.2.entries) = entries
  sorted : entries.Pairwise fun a b => entryCmp a b = .lt

lemma validateDescriptor_eq (h : block.WellFormed) :
    validateDescriptor block.descriptorTreeKey block = .ok () := by
  obtain ⟨a, ha, z, hz, -, -, hmin, hmax⟩ := h.exists_first_last
  have hle : (compare block.minKey block.maxKey).isGT = false := by
    have := h.minKey_isLE hz
    rw [hmax] at this
    cases hcmp : compare block.minKey block.maxKey <;> simp_all
  unfold validateDescriptor
  rw [isEmpty_eq_false_iff.2 h.nonempty, hle, Bool.false_or, Bool.false_or,
    if_neg (by rw [bne_self_eq_false]; exact Bool.false_ne_true)]
  by_cases hkind : block.kind = .compositeEquality
  · obtain ⟨properties, hproperties, harity⟩ := h.arity hkind
    rw [if_pos hkind, hproperties]
    show (if (!compositeKeyHasArity block.minKey properties.length ||
      !compositeKeyHasArity block.maxKey properties.length) = true then _ else _) = _
    rw [← hmin, ← hmax, harity a ha, harity z hz]
    rfl
  · rw [if_neg hkind]
    rfl

variable {projection : PropertyProjection}
  {entries : List IndexEntry}

lemma Indexes.validates
    (h : projection.Indexes kind labelId property entries) {d : Bytes × ProjectionBlock}
    (hd : d ∈ projection.scanPrefix (propertyProjectionDescriptorPrefix kind labelId property)) :
    validateDescriptor d.1 d.2 = .ok () ∧
      projection.validateSelectedDescriptor d.2 kind labelId property = .ok () := by
  obtain ⟨hkey, hkind, hlabel, hproperty, hwf⟩ := h.blocks d hd
  refine ⟨hkey ▸ validateDescriptor_eq hwf, ?_⟩
  rw [validateSelectedDescriptor, if_neg (by rw [hkind, hlabel, hproperty]; simp), hkind, hlabel,
    hproperty, if_neg (by rw [h.supported]; exact Bool.false_ne_true)]

lemma scanEntries_eq {blockMatches : ProjectionBlock → Bool}
    (h : projection.Indexes kind labelId property entries)
    (hkeeps : ∀ block, block.WellFormed → block.kind = kind → block.property = property →
      ∀ e ∈ block.entries, valueMatches e.1 → blockMatches block) (s : σ) :
    projection.scanEntries labelId property kind valueMatches blockMatches consumer s =
      scanUntil consumer (entries.filter fun e => valueMatches e.1) s := by
  rw [scanEntries, if_neg (by rw [h.supported]; exact Bool.false_ne_true), ← h.entries_eq,
    filter_flatMap, scanUntil_flatMap]
  refine scanUntil_congr (fun d hd s => ?_) s
  obtain ⟨-, hkind, -, hproperty, hwf⟩ := h.blocks d hd
  obtain ⟨hdescriptor, hselected⟩ := h.validates hd
  rw [hdescriptor, ok_bind, hselected, ok_bind, scanOneBlock_eq hwf]
  split_ifs with hmatch
  · rfl
  have hnone : (d.2.entries.filter fun e => valueMatches e.1) = [] :=
    filter_eq_nil_iff.2 fun e he hv => hmatch (hkeeps d.2 hwf hkind hproperty e he hv)
  rw [hnone]
  rfl

lemma scanRangeEntries_eq (h : projection.Indexes .range labelId property entries)
    (lower upper : Option (Value × Bool)) (s : σ) :
    projection.scanRangeEntries labelId property lower upper consumer s =
      scanUntil consumer (entries.filter fun e => rangeBoundsMatch e.1 lower upper) s := by
  refine scanEntries_eq h (fun block hwf _ _ e he hmatch => ?_) s
  refine rangeKeyBoundsMightMatch_of_match ?_ ?_ hmatch
  · rintro m ⟨⟩
    exact hwf.minKey_isLE he
  · rintro m ⟨⟩
    exact hwf.isLE_maxKey he

lemma equalityBlockMightMatch_of_match (hwf : block.WellFormed) {e : IndexEntry}
    (he : e ∈ block.entries) (h : e.1.eq value) : equalityBlockMightMatch value block := by
  have heq := Value.eq_iff.1 h
  rw [equalityBlockMightMatch, Bool.and_eq_true, ← TransCmp.congr_right heq,
    ← TransCmp.congr_left heq]
  exact ⟨hwf.minKey_isLE he, hwf.isLE_maxKey he⟩

lemma scanEqualityCandidates_eq (h : projection.Indexes .equality labelId property entries)
    (value : Value) (consumer : σ → ℕ → Except ProjectionError (σ × ScanControl)) (s : σ) :
    projection.scanEqualityCandidates labelId property value consumer s =
      scanUntil consumer ((entries.filter fun e => e.1.eq value).map Prod.snd) s := by
  rw [scanUntil_map]
  exact scanEntries_eq h (fun block hwf _ _ e he => equalityBlockMightMatch_of_match hwf he) s

end PropertyProjection

end HawDB
