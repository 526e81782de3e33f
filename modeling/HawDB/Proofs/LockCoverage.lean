import HawDB.Proofs.RelationalOrder
import HawDB.TransactionLocks

/-!
# Coverage of lock requests

A bound of a range is a cut of the key order, just before or just after a key (`lowerCut`,
`upperCut`); the comparisons of bounds are the order of the cuts. So a covered range lies inside
the range that covers it, whether or not either of them has a key in it, and what conflicts with a
request conflicts with every request that covers it (`requestsConflict_of_covers`).
-/

namespace HawDB

/-- A place between keys: before all of them, just before or just after a key, after all. -/
abbrev Cut := WithBot (WithTop (OrdClass RelationalKey ×ₗ Bool))

/-- Just before a key, or just after it. -/
def keyCut (key : RelationalKey) (after : Bool) : Cut :=
  WithBot.some (WithTop.some (toLex (rank key, after)))

def lowerCut : Bound → Cut
  | .included key => keyCut key false
  | .excluded key => keyCut key true
  | .unbounded => ⊥

/-- Where a range with this upper bound ends. -/
def upperCut : Bound → Cut
  | .included key => keyCut key true
  | .excluded key => keyCut key false
  | .unbounded => ⊤

lemma keyCut_le_keyCut :
    keyCut a x ≤ keyCut b y ↔ if x ≤ y then rank a ≤ rank b else rank a < rank b := by
  unfold keyCut
  rw [WithBot.coe_le_coe, WithTop.coe_le_coe, Prod.Lex.toLex_le_toLex]
  split_ifs with h
  · simp [h, le_iff_lt_or_eq]
  · simp [h]

@[simp] lemma keyCut_ne_bot (key : RelationalKey) (after : Bool) : keyCut key after ≠ ⊥ :=
  WithBot.coe_ne_bot

@[simp] lemma keyCut_ne_top (key : RelationalKey) (after : Bool) : keyCut key after ≠ ⊤ := by
  unfold keyCut
  rw [← WithBot.coe_top, Ne, WithBot.coe_inj]
  exact WithTop.coe_ne_top

lemma lowerBoundCovers_iff (held requested : Bound) :
    lowerBoundCovers held requested ↔ lowerCut held ≤ lowerCut requested := by
  cases held <;> cases requested <;>
    simp [lowerBoundCovers, lowerCut, keyCut_le_keyCut, rank_lt_rank, rank_le_rank]

lemma upperBoundCovers_iff (held requested : Bound) :
    upperBoundCovers held requested ↔ upperCut requested ≤ upperCut held := by
  cases held <;> cases requested <;>
    simp [upperBoundCovers, upperCut, keyCut_le_keyCut, rank_gt_rank, rank_ge_rank]

lemma upperIsBeforeLower_iff (upper lower : Bound) :
    upperIsBeforeLower upper lower ↔ upperCut upper ≤ lowerCut lower := by
  cases upper <;> cases lower <;>
    simp [upperIsBeforeLower, upperCut, lowerCut, keyCut_le_keyCut, rank_lt_rank, rank_le_rank]

lemma not_upperIsBeforeLower_iff (upper lower : Bound) :
    upperIsBeforeLower upper lower = false ↔ lowerCut lower < upperCut upper := by
  rw [← not_le, ← upperIsBeforeLower_iff, Bool.not_eq_true]

lemma modesConflict_comm (a b : LockMode) : modesConflict a b = modesConflict b a := by
  cases a <;> cases b <;> rfl

lemma targetsOverlap_comm (a b : LockTarget) : targetsOverlap a b = targetsOverlap b a := by
  cases a <;> cases b <;>
    simp [targetsOverlap, eq_comm, Bool.and_comm, Bool.and_left_comm, Bool.or_left_comm,
      Bool.and_assoc, Bool.or_assoc]

lemma requestsConflict_comm (a b : LockRequest) :
    requestsConflict a b = requestsConflict b a := by
  unfold requestsConflict
  rw [modesConflict_comm, targetsOverlap_comm]

lemma modesConflict_of_covers
    (hc : modeCovers held requested) (h : modesConflict requested other) :
    modesConflict held other = true := by
  revert hc h
  cases held <;> cases requested <;> cases other <;> decide

lemma targetsOverlap_of_covers
    (hc : targetCovers held requested) (h : targetsOverlap requested other) :
    targetsOverlap held other = true := by
  cases held <;> cases requested <;> simp [targetCovers] at hc <;> cases other <;>
    simp [targetsOverlap, lowerBoundCovers_iff, upperBoundCovers_iff,
      not_upperIsBeforeLower_iff] at hc h ⊢
  case relationalRange.relationalRange.relationalRange =>
    obtain ⟨⟨rfl, hlower⟩, hupper⟩ := hc
    obtain ⟨⟨rfl, hafter⟩, hbefore⟩ := h
    exact ⟨⟨rfl, hafter.trans_le hupper⟩, hlower.trans_lt hbefore⟩
  all_goals grind

lemma requestsConflict_of_covers
    (hc : requestCovers held requested) (h : requestsConflict requested other) :
    requestsConflict held other = true := by
  unfold requestCovers at hc
  unfold requestsConflict at h ⊢
  rw [Bool.and_eq_true] at hc h ⊢
  exact ⟨modesConflict_of_covers hc.1 h.1, targetsOverlap_of_covers hc.2 h.2⟩

lemma requestCovers_refl (r : LockRequest) : requestCovers r r := by
  obtain ⟨mode, target⟩ := r
  cases target <;>
    simp [requestCovers, modeCovers, targetCovers, lowerBoundCovers_iff, upperBoundCovers_iff]

lemma targetCovers_trans (hab : targetCovers a b)
    (hbc : targetCovers b c) : targetCovers a c := by
  cases a <;> cases b <;> simp [targetCovers] at hab <;> cases c <;>
    simp [targetCovers, lowerBoundCovers_iff, upperBoundCovers_iff] at hab hbc ⊢
  case relationalRange.relationalRange.relationalRange =>
    obtain ⟨⟨rfl, hlower⟩, hupper⟩ := hab
    obtain ⟨⟨rfl, hlower'⟩, hupper'⟩ := hbc
    exact ⟨⟨rfl, hlower.trans hlower'⟩, hupper'.trans hupper⟩
  all_goals grind

lemma requestCovers_trans (hab : requestCovers a b)
    (hbc : requestCovers b c) : requestCovers a c := by
  unfold requestCovers modeCovers at *
  rw [Bool.and_eq_true] at *
  refine ⟨?_, targetCovers_trans hab.2 hbc.2⟩
  obtain ⟨hab, -⟩ := hab
  obtain ⟨hbc, -⟩ := hbc
  grind

/-- Every request of the second set is covered by one of the first. -/
def SetCovers (big small : List LockRequest) : Prop :=
  ∀ r ∈ small, ∃ held ∈ big, requestCovers held r

lemma SetCovers.refl (rs : List LockRequest) : SetCovers rs rs :=
  fun r hr => ⟨r, hr, requestCovers_refl r⟩

lemma SetCovers.trans (hab : SetCovers a b) (hbc : SetCovers b c) : SetCovers a c := by
  intro r hr
  obtain ⟨s, hs, hsr⟩ := hbc r hr
  obtain ⟨q, hq, hqs⟩ := hab s hs
  exact ⟨q, hq, requestCovers_trans hqs hsr⟩

end HawDB
