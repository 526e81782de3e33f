import HawDB.IndexRange
import HawDB.Result
import HawDB.Proofs.OrderedKey

/-!
# A scan and its encoded range hold the same keys

Every cut of a scan is a cut of the byte strings: a prefix and an inclusive bound end at the
successor of their encoding, since below it is what is below the encoding and what extends it.
-/

namespace HawDB

open List EncodedRelationalIndexRange Option

section

lemma compare_take_eq_lt {α : Type*} [Ord α] : ∀ {l m : List α},
    compare (l.take m.length) m = .lt ↔ compare l m = .lt
  | l, [] => by cases l <;> simp
  | [], b :: m => by simp
  | a :: l, b :: m => by
    rw [List.length_cons, List.take_succ_cons, List.compare_cons_cons, List.compare_cons_cons,
      Ordering.then_eq_lt, Ordering.then_eq_lt, compare_take_eq_lt]

lemma prefixCmp_eq (key bound : RelationalKey) :
    prefixCmp key bound = compare (key.take bound.length) bound := by
  unfold prefixCmp
  rw [min_comm, ← take_eq_take_min]

/-- The encodings of a key's values, one after another; of an empty key, nothing. -/
def EncodesTo (key : RelationalKey) (x : Bytes) : Prop :=
  ∃ xs, IsEncodings key xs ∧ x = xs.flatten

lemma encodesTo_of_encode (h : encodeOrderedRelationalKey key = .ok x) : EncodesTo key x :=
  (encodeOrderedRelationalKey_eq.1 h).2

variable {key bound : RelationalKey} {x p : Bytes}

section

variable (hkey : EncodesTo key x) (hbound : EncodesTo bound p)

include hkey hbound

lemma EncodesTo.compare_eq : compare x p = compare key bound := by
  obtain ⟨xs, hxs, rfl⟩ := hkey
  obtain ⟨ys, hys, rfl⟩ := hbound
  exact isOrderCode_value.compare_flatten hxs hys

lemma EncodesTo.prefixCmp_eq_lt : prefixCmp key bound = .lt ↔ compare x p = .lt := by
  rw [prefixCmp_eq, compare_take_eq_lt, hkey.compare_eq hbound]

lemma EncodesTo.prefixCmp_eq_eq : prefixCmp key bound = .eq ↔ p <+: x := by
  obtain ⟨xs, hxs, rfl⟩ := hkey
  obtain ⟨ys, hys, rfl⟩ := hbound
  rw [prefixCmp_eq, isOrderCode_value.flatten_prefix_iff hys hxs, Std.OrientedCmp.eq_comm]

lemma EncodesTo.lt_successor_iff (hs : successor p = some s) :
    compare x s = .lt ↔ prefixCmp key bound ≠ .gt := by
  rw [HawDB.lt_successor_iff hs, ← hkey.prefixCmp_eq_lt hbound, ← hkey.prefixCmp_eq_eq hbound]
  cases prefixCmp key bound <;> simp

lemma EncodesTo.prefixCmp_ne_gt (hs : successor p = none) : prefixCmp key bound ≠ .gt := by
  have h := prefix_or_lt_of_successor_none hs x
  rw [← hkey.prefixCmp_eq_lt hbound, ← hkey.prefixCmp_eq_eq hbound] at h
  rintro hgt
  rw [hgt] at h
  rcases h with h | h <;> cases h

end

lemma length_eq_of_compare_eq {α : Type*} [Ord α] : ∀ {l m : List α}, compare l m = .eq →
    l.length = m.length
  | [], [], _ => rfl
  | [], _ :: _, h => by simp at h
  | _ :: _, [], h => by simp at h
  | a :: l, b :: m, h => by
    rw [List.compare_cons_cons, Ordering.then_eq_eq] at h
    rw [List.length_cons, List.length_cons, length_eq_of_compare_eq h.2]

lemma relationalKeyHasPrefix_eq (key keyPrefix : RelationalKey) :
    relationalKeyHasPrefix key keyPrefix = decide (prefixCmp key keyPrefix = .eq) := by
  rw [relationalKeyHasPrefix, prefixCmp_eq, Bool.and_eq_right_iff_imp, decide_eq_true_iff,
    decide_eq_true_iff]
  intro h
  have hlength := length_eq_of_compare_eq h
  rw [length_take] at hlength
  omega

end

namespace EncodedRelationalIndexRange

variable (range : EncodedRelationalIndexRange) (x key : Bytes)

/-- What an included lower end cuts off. -/
def belowLower (x key : Bytes) (inclusive : Bool) : Bool :=
  decide (compare x key = .lt) || (!inclusive && decide (compare x key = .eq))

lemma belowLower_of_lt {x a b : Bytes} (hab : compare a b = .lt)
    (h : belowLower x a i) : belowLower x b j := by
  have hle : rank x ≤ rank a := by
    simp only [belowLower, Bool.or_eq_true, Bool.and_eq_true, decide_eq_true_iff] at h
    rcases h with h | h
    · exact (rank_lt_rank.2 h).le
    · exact (rank_eq_rank.2 h.2).le
  have hlt : compare x b = .lt := rank_lt_rank.1 (hle.trans_lt (rank_lt_rank.2 hab))
  simp [belowLower, hlt]

lemma before_includeLower (inclusive : Bool) :
    (range.includeLower key inclusive).before x = (range.before x || belowLower x key inclusive) := by
  show _ = (belowLower x range.lower range.lowerInclusive || belowLower x key inclusive)
  unfold includeLower
  rcases hcompare : compare key range.lower
  · show belowLower x range.lower range.lowerInclusive = _
    rw [eq_comm, Bool.or_eq_left_iff_imp]
    exact belowLower_of_lt hcompare
  · obtain rfl : key = range.lower := Std.LawfulEqOrd.eq_of_compare hcompare
    show belowLower x range.lower (range.lowerInclusive && inclusive) = _
    unfold belowLower
    cases range.lowerInclusive <;> cases inclusive <;> cases compare x range.lower <;> rfl
  · show belowLower x key inclusive = _
    rw [eq_comm, Bool.or_eq_right_iff_imp]
    exact belowLower_of_lt (Std.OrientedCmp.gt_iff_lt.1 hcompare)

lemma contains_includeLower (inclusive : Bool) : (range.includeLower key inclusive).contains x =
      (range.contains x && !belowLower x key inclusive) := by
  have hrest : (range.includeLower key inclusive).empty = range.empty ∧
      (range.includeLower key inclusive).after x = range.after x := by
    unfold includeLower
    split <;> exact ⟨rfl, rfl⟩
  rw [contains, contains, before_includeLower, hrest.1, hrest.2]
  cases range.empty <;> cases range.before x <;> cases range.after x <;> simp

lemma after_includeUpper :
    (range.includeUpper key).after x = (range.after x || (compare x key).isGE) := by
  unfold includeUpper after
  rcases hupper : range.upper with _ | upper
  · simp
  simp only [all_some, decide_eq_true_iff, any_some]
  split_ifs with hlt
  · rw [any_some, eq_comm, Bool.or_eq_right_iff_imp, ← rank_ge_rank, ← rank_ge_rank]
    exact (rank_lt_rank.2 hlt).le.trans
  · rw [hupper, any_some, eq_comm, Bool.or_eq_left_iff_imp, ← rank_ge_rank, ← rank_ge_rank]
    rw [← rank_lt_rank, not_lt] at hlt
    exact hlt.trans

lemma contains_includeUpper :
    (range.includeUpper key).contains x = (range.contains x && decide (compare x key = .lt)) := by
  have hrest : (range.includeUpper key).empty = range.empty ∧
      (range.includeUpper key).before x = range.before x := by
    unfold includeUpper
    split <;> exact ⟨rfl, rfl⟩
  rw [contains, contains, after_includeUpper, hrest.1, hrest.2]
  cases range.empty <;> cases range.before x <;> cases range.after x <;>
    cases compare x key <;> rfl

lemma before_eq_false_iff : range.before x = false ↔
    rank range.lower ≤ rank x ∧ (range.lowerInclusive = false → rank range.lower < rank x) := by
  rw [rank_gt_rank, rank_ge_rank]
  unfold before
  cases range.lowerInclusive <;> cases compare x range.lower <;> simp

lemma after_eq_false_iff : range.after x = false ↔
    ∀ upper, range.upper = some upper → rank x < rank upper := by
  unfold after
  rcases range.upper with _ | upper
  · simp
  · simp only [any_some, some_inj, forall_eq', rank_lt_rank]
    cases compare x upper <;> simp

lemma contains_iff : range.contains x ↔
    range.empty = false ∧ range.before x = false ∧ range.after x = false := by
  simp [contains, and_assoc]

lemma contains_of_crossed :
    contains { range with
      empty := range.empty || range.upper.any fun upper => (compare range.lower upper).isGE } x =
      range.contains x := by
  rw [Bool.eq_iff_iff, contains_iff, contains_iff]
  refine and_congr_left fun ⟨hbefore, hafter⟩ => ?_
  have hlower := (before_eq_false_iff range x).1 hbefore
  have hupper := (after_eq_false_iff range x).1 hafter
  rcases hsome : range.upper with _ | upper
  · simp
  · have hlt : compare range.lower upper = .lt :=
      rank_lt_rank.1 (hlower.1.trans_lt (hupper upper hsome))
    simp [hlt]

lemma overlaps_of_contains {lower upper : Bytes} (h : range.contains x)
    (hlower : (compare lower x).isLE) (hupper : (compare x upper).isLE) :
    range.overlaps lower upper := by
  obtain ⟨hempty, hbefore, hafter⟩ := (contains_iff range x).1 h
  rw [before_eq_false_iff] at hbefore
  rw [after_eq_false_iff] at hafter
  rw [← rank_le_rank] at hlower hupper
  have hbefore' : range.before upper = false := (before_eq_false_iff range upper).2
    ⟨hbefore.1.trans hupper, fun hexclusive => (hbefore.2 hexclusive).trans_le hupper⟩
  have hafter' : range.after lower = false := (after_eq_false_iff range lower).2
    fun u hu => hlower.trans_lt (hafter u hu)
  rw [overlaps, hempty, hbefore', hafter']
  rfl

end EncodedRelationalIndexRange

namespace RelationalIndexRangeScan

variable {scan : RelationalIndexRangeScan} {range range' : EncodedRelationalIndexRange}
  {key : RelationalKey} {x : Bytes}

def lowerCut (key : RelationalKey) (bound : RelationalIndexBound) : Bool :=
  decide (prefixCmp key bound.key = .lt) ||
    (decide (prefixCmp key bound.key = .eq) && !bound.inclusive)

def upperCut (key : RelationalKey) (bound : RelationalIndexBound) : Bool :=
  decide (prefixCmp key bound.key = .gt) ||
    (decide (prefixCmp key bound.key = .eq) && !bound.inclusive)

/-- What the cursor cuts off. -/
def cursorCut (direction : RelationalIndexScanDirection) (key cursor : RelationalKey) : Bool :=
  match direction with
  | .forward => (compare key cursor).isLE
  | .backward => (compare key cursor).isGE

lemma contains_prefixRange (hkey : EncodesTo key x)
    (h : scan.prefixRange encodeOrderedRelationalKey = .ok range) :
    range.contains x = (!scan.boundsOf.empty && relationalKeyHasPrefix key scan.keyPrefix) := by
  obtain ⟨p, hp, rfl⟩ := map_eq_ok.1 h
  have hbound : EncodesTo scan.keyPrefix p := by
    split_ifs at hp with hempty
    · cases hp
      rw [Bool.and_eq_true, List.isEmpty_iff] at hempty
      rw [hempty.1]
      exact ⟨[], .nil, rfl⟩
    · exact encodesTo_of_encode hp
  rw [relationalKeyHasPrefix_eq, Bool.eq_iff_iff, contains_iff,
    Bool.and_eq_true, decide_eq_true_iff, Bool.not_eq_true']
  refine and_congr_right fun _ => ?_
  have hlt := hkey.prefixCmp_eq_lt hbound
  rw [before_eq_false_iff, after_eq_false_iff]
  simp only [rank_ge_rank, Bool.true_eq_false, false_imp_iff, and_true]
  rcases hs : successor p with _ | s
  · have hne := hkey.prefixCmp_ne_gt hbound hs
    revert hlt hne
    cases prefixCmp key scan.keyPrefix <;> cases compare x p <;> simp
  have hiff := hkey.lt_successor_iff hbound hs
  simp only [some_inj, forall_eq', rank_lt_rank, hiff]
  revert hlt
  cases prefixCmp key scan.keyPrefix <;> cases compare x p <;> simp

lemma contains_withLower (hkey : EncodesTo key x)
    (h : withLower encodeOrderedRelationalKey bound range = .ok range') :
    range'.contains x = (range.contains x && !lowerCut key bound) := by
  obtain ⟨p, hp, rfl⟩ := map_eq_ok.1 h
  have hbound := encodesTo_of_encode hp
  unfold lowerCut
  rcases bound.inclusive
  · have hcut : (decide (prefixCmp key bound.key = .lt) ||
        (decide (prefixCmp key bound.key = .eq) && !false)) =
        decide (prefixCmp key bound.key ≠ .gt) := by
      cases prefixCmp key bound.key <;> rfl
    rw [if_neg (by decide), hcut]
    rcases hs : successor p with _ | s
    · rw [decide_eq_true (hkey.prefixCmp_ne_gt hbound hs), EncodedRelationalIndexRange.contains]
      simp
    have hdec : decide (compare x s = .lt) = decide (prefixCmp key bound.key ≠ .gt) :=
      decide_eq_decide.2 (hkey.lt_successor_iff hbound hs)
    dsimp only
    rw [contains_includeLower, belowLower, hdec, Bool.not_true, Bool.false_and, Bool.or_false]
  · have hdec : decide (prefixCmp key bound.key = .lt) = decide (compare x p = .lt) :=
      decide_eq_decide.2 (hkey.prefixCmp_eq_lt hbound)
    rw [if_pos rfl, contains_includeLower,
      belowLower, hdec, Bool.not_true, Bool.false_and, Bool.and_false]

lemma contains_withUpper (hkey : EncodesTo key x)
    (h : withUpper encodeOrderedRelationalKey bound range = .ok range') :
    range'.contains x = (range.contains x && !upperCut key bound) := by
  obtain ⟨p, hp, rfl⟩ := map_eq_ok.1 h
  have hbound := encodesTo_of_encode hp
  unfold upperCut
  rcases bound.inclusive
  · rw [if_neg (by decide)]
    dsimp only
    have hdec : decide (compare x p = .lt) = decide (prefixCmp key bound.key = .lt) :=
      decide_eq_decide.2 (hkey.prefixCmp_eq_lt hbound).symm
    rw [contains_includeUpper, hdec]
    cases prefixCmp key bound.key <;> rfl
  · rw [if_pos rfl]
    have hcut : (decide (prefixCmp key bound.key = .gt) ||
        (decide (prefixCmp key bound.key = .eq) && !true)) =
        !decide (prefixCmp key bound.key ≠ .gt) := by
      cases prefixCmp key bound.key <;> rfl
    rw [hcut, Bool.not_not]
    rcases hs : successor p with _ | s
    · rw [decide_eq_true (hkey.prefixCmp_ne_gt hbound hs), Bool.and_true]
    have hdec : decide (compare x s = .lt) = decide (prefixCmp key bound.key ≠ .gt) :=
      decide_eq_decide.2 (hkey.lt_successor_iff hbound hs)
    rw [contains_includeUpper, hdec]

lemma contains_withCursor {direction : RelationalIndexScanDirection} (hkey : EncodesTo key x)
    (h : withCursor encodeOrderedRelationalKey direction cursor range = .ok range') :
    range'.contains x = (range.contains x && !cursorCut direction key cursor) := by
  obtain ⟨p, hp, rfl⟩ := map_eq_ok.1 h
  have hcompare := hkey.compare_eq (encodesTo_of_encode hp)
  cases direction with
  | forward =>
    dsimp only [cursorCut]
    rw [contains_includeLower, belowLower, hcompare]
    cases compare key cursor <;> rfl
  | backward =>
    dsimp only [cursorCut]
    rw [contains_includeUpper, hcompare]
    cases compare key cursor <;> rfl

lemma contains_withSome {α : Type*}
    {step : α → EncodedRelationalIndexRange → Except OrderedRelationalKeyError
      EncodedRelationalIndexRange} {cut : α → Bool} {a : Option α}
    (h : withSome step a range = .ok range') (hstep : ∀ a range range', step a range = .ok range' →
      range'.contains x = (range.contains x && !cut a)) :
    range'.contains x = (range.contains x && !a.any cut) := by
  cases a with
  | none =>
    cases h
    simp
  | some a =>
    rw [any_some]
    exact hstep a range range' h

lemma matchesKey_eq (scan : RelationalIndexRangeScan) (key : RelationalKey) :
    scan.matchesKey key =
      (!scan.boundsOf.empty && relationalKeyHasPrefix key scan.keyPrefix &&
        !scan.boundsOf.lower.any (lowerCut key) && !scan.boundsOf.upper.any (upperCut key) &&
        !scan.exclusiveBound.any (cursorCut scan.direction key)) := by
  have hstarts : (!decide (compare key scan.keyPrefix = .lt) &&
      !((compare key scan.keyPrefix).isGE && !relationalKeyHasPrefix key scan.keyPrefix)) =
      relationalKeyHasPrefix key scan.keyPrefix := by
    have hlt : compare key scan.keyPrefix = .lt ↔ prefixCmp key scan.keyPrefix = .lt := by
      rw [prefixCmp_eq, compare_take_eq_lt]
    rw [relationalKeyHasPrefix_eq]
    revert hlt
    cases compare key scan.keyPrefix <;> cases prefixCmp key scan.keyPrefix <;> simp
  rw [← hstarts]
  show (_ && !(_ || scan.boundsOf.lower.any (lowerCut key) || _) &&
    !(_ || scan.boundsOf.upper.any (upperCut key) || _)) = _
  generalize scan.boundsOf.lower.any (lowerCut key) = lower
  generalize scan.boundsOf.upper.any (upperCut key) = upper
  generalize decide (compare key scan.keyPrefix = .lt) = below
  generalize ((compare key scan.keyPrefix).isGE && _) = beyond
  cases scan.direction with
  | forward =>
    show (_ && !(_ || _ || (true && scan.exclusiveBound.any (cursorCut .forward key))) &&
      !(_ || _ || false)) = _
    cases scan.boundsOf.empty <;> cases below <;> cases beyond <;> cases lower <;> cases upper <;>
      simp
  | backward =>
    show (_ && !(_ || _ || false) &&
      !(_ || _ || (true && scan.exclusiveBound.any (cursorCut .backward key)))) = _
    cases scan.boundsOf.empty <;> cases below <;> cases beyond <;> cases lower <;> cases upper <;>
      simp

lemma contains_encodedBounds (hkey : EncodesTo key x)
    (h : scan.encodedBounds encodeOrderedRelationalKey = .ok range) :
    range.contains x = scan.matchesKey key := by
  obtain ⟨range₀, hstarts, range₁, hlower, h⟩ := bind₂_eq_ok.1 h
  obtain ⟨range₂, hupper, range₃, hcursor, h⟩ := bind₂_eq_ok.1 h
  cases h
  rw [contains_of_crossed, contains_withSome hcursor fun _ _ _ => contains_withCursor hkey,
    contains_withSome hupper fun _ _ _ => contains_withUpper hkey,
    contains_withSome hlower fun _ _ _ => contains_withLower hkey, contains_prefixRange hkey hstarts,
    matchesKey_eq]

/-- A scan whose keys have encodings. -/
structure IsEncodable (scan : RelationalIndexRangeScan) : Prop where
  keyPrefix : scan.keyPrefix ≠ [] ∨ scan.boundsOf.lower.isSome ∨
    scan.boundsOf.upper.isSome ∨ scan.boundsOf.empty
  keyPrefix_ordered : ∀ v ∈ scan.keyPrefix, v.isOrdered
  lower : ∀ bound ∈ scan.boundsOf.lower, bound.key ≠ [] ∧ ∀ v ∈ bound.key, v.isOrdered
  upper : ∀ bound ∈ scan.boundsOf.upper, bound.key ≠ [] ∧ ∀ v ∈ bound.key, v.isOrdered
  cursor : ∀ cursor ∈ scan.exclusiveBound, cursor ≠ [] ∧ ∀ v ∈ cursor, v.isOrdered

lemma exists_withSome {α : Type*}
    (step : α → EncodedRelationalIndexRange → Except OrderedRelationalKeyError
      EncodedRelationalIndexRange) {a : Option α}
    (hstep : ∀ b ∈ a, ∀ range, ∃ range', step b range = .ok range')
    (range : EncodedRelationalIndexRange) : ∃ range', withSome step a range = .ok range' := by
  cases a with
  | none => exact ⟨range, rfl⟩
  | some b => exact hstep b rfl range

lemma IsEncodable.exists_encodedBounds (h : scan.IsEncodable) :
    ∃ range, scan.encodedBounds encodeOrderedRelationalKey = .ok range := by
  have hmap : ∀ {key : RelationalKey} {f : Bytes → EncodedRelationalIndexRange},
      key ≠ [] ∧ (∀ v ∈ key, v.isOrdered) →
        ∃ range, (encodeOrderedRelationalKey key).map f = .ok range := by
    intro key f hkey
    obtain ⟨x, hx⟩ := exists_encodeOrderedRelationalKey hkey.1 hkey.2
    exact ⟨_, map_eq_ok.2 ⟨x, hx, rfl⟩⟩
  have hstarts : ∃ range, scan.prefixRange encodeOrderedRelationalKey = .ok range := by
    unfold prefixRange
    dsimp only
    split_ifs with hempty
    · exact ⟨_, rfl⟩
    refine hmap ⟨fun hnil => hempty ?_, h.keyPrefix_ordered⟩
    rcases h.keyPrefix with hne | hsome | hsome | hsome
    · exact absurd hnil hne
    all_goals simp [hnil, hsome]
  obtain ⟨range₀, hstarts⟩ := hstarts
  obtain ⟨range₁, hlower⟩ :=
    exists_withSome (withLower encodeOrderedRelationalKey)
      (fun bound hbound _ => hmap (h.lower bound hbound)) range₀
  obtain ⟨range₂, hupper⟩ :=
    exists_withSome (withUpper encodeOrderedRelationalKey)
      (fun bound hbound _ => hmap (h.upper bound hbound)) range₁
  obtain ⟨range₃, hcursor⟩ :=
    exists_withSome (withCursor encodeOrderedRelationalKey scan.direction)
      (fun cursor hcursor _ => hmap (h.cursor cursor hcursor)) range₂
  exact ⟨_, bind_eq_ok.2 ⟨_, hstarts, bind_eq_ok.2 ⟨_, hlower, bind_eq_ok.2 ⟨_, hupper,
    bind_eq_ok.2 ⟨_, hcursor, rfl⟩⟩⟩⟩⟩

/-- A scan and its encoded range hold the same keys, and the range overlaps every page that holds
one of them. The range is there for every scan whose keys have encodings. -/
theorem matchesKey_eq_contains (scan : RelationalIndexRangeScan) :
    (scan.IsEncodable → ∃ range, scan.encodedBounds encodeOrderedRelationalKey = .ok range) ∧
    ∀ range, scan.encodedBounds encodeOrderedRelationalKey = .ok range →
      ∀ key x, encodeOrderedRelationalKey key = .ok x →
        scan.matchesKey key = range.contains x ∧
          (scan.matchesKey key = true → ∀ lower upper, (compare lower x).isLE = true →
            (compare x upper).isLE = true → range.overlaps lower upper = true) := by
  refine ⟨IsEncodable.exists_encodedBounds, fun range hrange key x hx => ?_⟩
  have hcontains := contains_encodedBounds (encodesTo_of_encode hx) hrange
  refine ⟨hcontains.symm, fun hmatches lower upper hlower hupper => ?_⟩
  exact range.overlaps_of_contains x (hcontains.trans hmatches) hlower hupper

/-- Backward from a cursor, behind a prefix and with an upper bound. -/
def backwardScan : RelationalIndexRangeScan :=
  ⟨[.bigInt 1], some ⟨none, some ⟨[.bigInt 1, .bigInt 9], true⟩, false⟩,
    some [.bigInt 1, .bigInt 7], .backward⟩

theorem matchesKey_eq_contains_backward :
    ∃ range x, backwardScan.encodedBounds encodeOrderedRelationalKey = .ok range ∧
      encodeOrderedRelationalKey [.bigInt 1, .bigInt 5] = .ok x ∧ range.contains x = true ∧
        range.overlaps x x = true := by
  have hencodable : backwardScan.IsEncodable := by constructor <;> decide
  obtain ⟨range, hrange⟩ := (matchesKey_eq_contains backwardScan).1 hencodable
  have hx : encodeOrderedRelationalKey [.bigInt 1, .bigInt 5] = .ok _ := rfl
  obtain ⟨hcontains, hoverlaps⟩ := (matchesKey_eq_contains backwardScan).2 range hrange _ _ hx
  have hmatches : backwardScan.matchesKey [.bigInt 1, .bigInt 5] = true := by decide +kernel
  exact ⟨range, _, hrange, hx, hcontains.symm.trans hmatches,
    hoverlaps hmatches _ _ Std.ReflCmp.isLE_rfl Std.ReflCmp.isLE_rfl⟩

end RelationalIndexRangeScan

end HawDB
