import HawDB.Result
import HawDB.OrderedKey

/-!
# The streaming overlay of a row range

A range read merges the rows of several sources, each in ascending key order. The cursor buffers one
head of each source in a heap and takes the least key first; of the heads of one key the one of the
greatest epoch is the row, and two of the same epoch are corruption (`nextProjected`).
-/

namespace HawDB

open List

/-- The errors of row-page reads and of the row delta. -/
inductive RowPageError where
  | admission (message : String)
  | corrupt (message : String)
  | orderedKey (context : String) (error : OrderedRelationalKeyError)
  | missingTable (table : String)
  | requiresCheckpoint (tables : List String)
  | invalidated (reason : String)
deriving DecidableEq, Repr

/-- `RelationalRowPageOverlayRangeEntry`. -/
structure OverlayEntry (K V : Type*) where
  key : K
  epoch : ℕ
  value : V
deriving DecidableEq, Repr

/-- An entry in the heap, with the source it came from. -/
structure StreamingOverlayHead (K V : Type*) extends OverlayEntry K V where
  source : ℕ

variable {K V : Type*} [Ord K]

/-- The order of heads; it is turned round, so that the greatest head has the least key. -/
def StreamingOverlayHead.cmp (a b : StreamingOverlayHead K V) : Ordering :=
  (compare b.key a.key).then ((compare b.epoch a.epoch).then (compare b.source a.source))

/-- `BinaryHeap::pop`: a greatest head, and the others. -/
def popGreatest : List (StreamingOverlayHead K V) →
    Option (StreamingOverlayHead K V × List (StreamingOverlayHead K V))
  | [] => none
  | head :: heap =>
    match popGreatest heap with
    | none => some (head, [])
    | some (greatest, rest) =>
      if head.cmp greatest = .lt then some (greatest, head :: rest)
      else some (head, greatest :: rest)

lemma popGreatest_eq_none {heap : List (StreamingOverlayHead K V)} :
    popGreatest heap = none ↔ heap = [] := by
  cases heap with
  | nil => simp [popGreatest]
  | cons head heap =>
    simp only [popGreatest, reduceCtorEq, iff_false]
    split
    · simp
    · split_ifs <;> simp

lemma popGreatest_perm : ∀ {heap rest}
    {greatest : StreamingOverlayHead K V}, popGreatest heap = some (greatest, rest) →
      heap.Perm (greatest :: rest)
  | [], _, _, h => nomatch h
  | head :: heap, rest, greatest, h => by
    rw [popGreatest] at h
    split at h
    · rename_i hnone
      cases h
      rw [popGreatest_eq_none.1 hnone]
    rename_i m others hsome
    have hperm := popGreatest_perm hsome
    split_ifs at h with hlt <;> obtain ⟨rfl, rfl⟩ := Prod.mk.inj (Option.some.inj h)
    · exact (hperm.cons head).trans (.swap _ _ _)
    · exact hperm.cons head

structure StreamingOverlayCursor (K V : Type*) where
  sources : List (List (OverlayEntry K V))
  heap : List (StreamingOverlayHead K V)
  initialized : Bool
  baseCommitEpoch : ℕ
  visibleCommitEpoch : ℕ

namespace StreamingOverlayCursor

def new (sources : List (List (OverlayEntry K V))) (baseCommitEpoch visibleCommitEpoch : ℕ) :
    StreamingOverlayCursor K V :=
  ⟨sources, [], false, baseCommitEpoch, visibleCommitEpoch⟩

/-- Buffers the next entry of a source, if it has one. -/
def advanceSource (cursor : StreamingOverlayCursor K V) (source : ℕ) :
    Except RowPageError (StreamingOverlayCursor K V) :=
  match cursor.sources[source]? with
  | none => .error (.corrupt s!"overlay merge source {source} is out of range")
  | some [] => .ok cursor
  | some (entry :: rest) =>
    if entry.epoch ≤ cursor.baseCommitEpoch ∨ cursor.visibleCommitEpoch < entry.epoch then
      .error (.corrupt (s!"overlay row epoch {entry.epoch} is outside " ++
        s!"({cursor.baseCommitEpoch}, {cursor.visibleCommitEpoch}]"))
    else
      .ok { cursor with
        sources := cursor.sources.set source rest
        heap := { entry with source } :: cursor.heap }

/-- The entries still to be merged. -/
def pending (cursor : StreamingOverlayCursor K V) : ℕ :=
  cursor.heap.length + (cursor.sources.map length).sum

omit [Ord K] in
lemma sum_length_set : ∀ {sources : List (List (OverlayEntry K V))} {source : ℕ}
    {entry : OverlayEntry K V} {rest : List (OverlayEntry K V)},
    sources[source]? = some (entry :: rest) →
      ((sources.set source rest).map length).sum + 1 = (sources.map length).sum
  | [], _, _, _, h => by simp at h
  | l :: sources, 0, entry, rest, h => by
    obtain rfl : l = entry :: rest := by simpa using h
    simp only [set_cons_zero, map_cons, sum_cons, length_cons]
    omega
  | l :: sources, source + 1, entry, rest, h => by
    have hnext : sources[source]? = some (entry :: rest) := by simpa using h
    have := sum_length_set hnext
    simp only [set_cons_succ, map_cons, sum_cons]
    omega

omit [Ord K] in
lemma advanceSource_eq_ok {cursor next : StreamingOverlayCursor K V} :
    cursor.advanceSource source = .ok next ↔ (cursor.sources[source]? = some [] ∧ next = cursor) ∨
      ∃ entry rest, cursor.sources[source]? = some (entry :: rest) ∧
        cursor.baseCommitEpoch < entry.epoch ∧ entry.epoch ≤ cursor.visibleCommitEpoch ∧
        next = { cursor with
          sources := cursor.sources.set source rest
          heap := { entry with source } :: cursor.heap } := by
  rw [advanceSource]
  split
  · simp_all
  · rename_i hs
    simp [hs, eq_comm]
  · rename_i entry rest hs
    split_ifs with hepoch
    · simp only [hs, Option.some.injEq, reduceCtorEq, false_and, false_or, false_iff,
        cons.injEq, not_exists]
      rintro _ _ ⟨⟨rfl, rfl⟩, hbase, hvisible, -⟩
      omega
    · simp only [hs, Except.ok.injEq, Option.some.injEq, reduceCtorEq, false_and, false_or,
        cons.injEq]
      constructor
      · rintro rfl
        exact ⟨entry, rest, ⟨rfl, rfl⟩, by omega, by omega, rfl⟩
      · rintro ⟨_, _, ⟨rfl, rfl⟩, -, -, rfl⟩
        rfl

omit [Ord K] in
lemma pending_advanceSource {cursor next : StreamingOverlayCursor K V}
    (h : cursor.advanceSource source = .ok next) : next.pending = cursor.pending := by
  rcases advanceSource_eq_ok.1 h with ⟨-, rfl⟩ | ⟨entry, rest, hs, -, -, rfl⟩
  · rfl
  · have := sum_length_set hs
    simp only [pending, length_cons]
    omega

/-- The loop of `initialize`, over the sources that are left. -/
def initializeLoop : List ℕ → StreamingOverlayCursor K V →
    Except RowPageError (StreamingOverlayCursor K V)
  | [], cursor => .ok cursor
  | source :: sources, cursor => do initializeLoop sources (← cursor.advanceSource source)

/-- `initialize`: the first entry of every source is buffered, once. -/
def ensureInitialized (cursor : StreamingOverlayCursor K V) :
    Except RowPageError (StreamingOverlayCursor K V) :=
  if cursor.initialized then .ok cursor
  else initializeLoop (range cursor.sources.length) { cursor with initialized := true }

/-- The cursor after its greatest head was popped. -/
def withHeap (cursor : StreamingOverlayCursor K V) (heap : List (StreamingOverlayHead K V)) :
    StreamingOverlayCursor K V :=
  { cursor with heap }

lemma pending_withHeap {cursor : StreamingOverlayCursor K V}
    {head : StreamingOverlayHead K V} {heap : List (StreamingOverlayHead K V)}
    (h : popGreatest cursor.heap = some (head, heap)) :
    (cursor.withHeap heap).pending + 1 = cursor.pending := by
  have := (popGreatest_perm h).length_eq
  simp only [pending, withHeap, length_cons] at this ⊢
  omega

/-- The loop of `next_projected`: the heads that have the selected key are popped, each source is
advanced, and the head of the greatest epoch stays selected. -/
def selectNewest (cursor : StreamingOverlayCursor K V) (selected : StreamingOverlayHead K V) :
    Except RowPageError (StreamingOverlayCursor K V × StreamingOverlayHead K V) :=
  match hpop : popGreatest cursor.heap with
  | none => .ok (cursor, selected)
  | some (candidate, heap) =>
    if compare candidate.key selected.key = .eq then
      if candidate.epoch = selected.epoch then
        .error (.corrupt s!"overlay contains duplicate row version at epoch {candidate.epoch}")
      else
        match hadvance : (cursor.withHeap heap).advanceSource candidate.source with
        | .error e => .error e
        | .ok next =>
          next.selectNewest (if selected.epoch < candidate.epoch then candidate else selected)
    else .ok (cursor, selected)
termination_by cursor.pending
decreasing_by
  have := pending_withHeap hpop
  have := pending_advanceSource hadvance
  omega

/-- The next key of the merge and its newest value. -/
def nextProjected (cursor : StreamingOverlayCursor K V) :
    Except RowPageError (Option (K × V) × StreamingOverlayCursor K V) := do
  let cursor ← cursor.ensureInitialized
  match popGreatest cursor.heap with
  | none => .ok (none, cursor)
  | some (selected, heap) =>
    let (cursor, newest) ← (cursor.withHeap heap).selectNewest selected
    let cursor ← cursor.advanceSource selected.source
    .ok (some (newest.key, newest.value), cursor)

def peekKey (cursor : StreamingOverlayCursor K V) :
    Except RowPageError (Option K × StreamingOverlayCursor K V) := do
  let cursor ← cursor.ensureInitialized
  .ok ((popGreatest cursor.heap).map (·.1.key), cursor)

section

variable {cursor next : StreamingOverlayCursor K V}

omit [Ord K] in
lemma pending_initializeLoop : ∀ {sources} {cursor next : StreamingOverlayCursor K V},
    initializeLoop sources cursor = .ok next → next.pending = cursor.pending
  | [], _, _, h => by rw [Except.ok.inj h]
  | source :: sources, cursor, next, h => by
    obtain ⟨advanced, hadvanced, hrest⟩ := bind_eq_ok.1 h
    rw [pending_initializeLoop hrest, pending_advanceSource hadvanced]

omit [Ord K] in
lemma pending_ensureInitialized (h : cursor.ensureInitialized = .ok next) :
    next.pending = cursor.pending := by
  rw [ensureInitialized] at h
  split_ifs at h
  · rw [Except.ok.inj h]
  · exact (pending_initializeLoop h).trans rfl

lemma pending_selectNewest {selected newest : StreamingOverlayHead K V}
    (h : cursor.selectNewest selected = .ok (next, newest)) : next.pending ≤ cursor.pending := by
  fun_induction selectNewest cursor selected with
  | case1 cursor selected hpop =>
    cases h
    exact le_rfl
  | case2 => nomatch h
  | case3 => nomatch h
  | case4 cursor selected candidate heap hpop hkey hepoch advanced hadvance ih =>
    have := pending_withHeap hpop
    have := pending_advanceSource hadvance
    have := ih h
    omega
  | case5 =>
    cases h
    exact le_rfl

lemma nextProjected_eq_ok_some : cursor.nextProjected = .ok (some row, next) ↔
    ∃ ready selected heap advanced newest, cursor.ensureInitialized = .ok ready ∧
      popGreatest ready.heap = some (selected, heap) ∧
      (ready.withHeap heap).selectNewest selected = .ok (advanced, newest) ∧
      advanced.advanceSource selected.source = .ok next ∧ row = (newest.key, newest.value) := by
  rw [nextProjected]
  constructor
  · intro h
    obtain ⟨ready, hready, h⟩ := bind_eq_ok.1 h
    rcases hpop : popGreatest ready.heap with _ | ⟨selected, heap⟩
    · rw [hpop] at h
      simp at h
    rw [hpop] at h
    obtain ⟨⟨advanced, newest⟩, hnewest, final, hfinal, h⟩ := bind₂_eq_ok.1 h
    obtain ⟨hrow, rfl⟩ := Prod.mk.inj (Except.ok.inj h)
    exact ⟨ready, selected, heap, advanced, newest, hready, hpop, hnewest, hfinal,
      (Option.some.inj hrow).symm⟩
  · rintro ⟨ready, selected, heap, advanced, newest, hready, hpop, hnewest, hfinal, rfl⟩
    rw [hready, ok_bind, hpop]
    show (ready.withHeap heap).selectNewest selected >>= _ = _
    rw [hnewest, ok_bind]
    show advanced.advanceSource selected.source >>= _ = _
    rw [hfinal, ok_bind]

lemma nextProjected_eq_ok_none : cursor.nextProjected = .ok (none, next) ↔
    cursor.ensureInitialized = .ok next ∧ next.heap = [] := by
  rw [nextProjected]
  constructor
  · intro h
    obtain ⟨ready, hready, h⟩ := bind_eq_ok.1 h
    rcases hpop : popGreatest ready.heap with _ | ⟨selected, heap⟩
    · rw [hpop] at h
      cases h
      exact ⟨hready, popGreatest_eq_none.1 hpop⟩
    · rw [hpop] at h
      obtain ⟨_, -, _, -, h⟩ := bind₂_eq_ok.1 h
      simp at h
  · rintro ⟨hready, hheap⟩
    rw [hready, ok_bind, popGreatest_eq_none.2 hheap]

lemma pending_nextProjected {row : K × V} (h : cursor.nextProjected = .ok (some row, next)) :
    next.pending < cursor.pending := by
  obtain ⟨ready, selected, heap, advanced, newest, hready, hpop, hnewest, hfinal, -⟩ :=
    nextProjected_eq_ok_some.1 h
  have := pending_ensureInitialized hready
  have := pending_withHeap hpop
  have := pending_selectNewest hnewest
  have := pending_advanceSource hfinal
  omega

lemma pending_peekKey (h : cursor.peekKey = .ok (key, next)) : next.pending = cursor.pending := by
  obtain ⟨ready, hready, h⟩ := bind_eq_ok.1 h
  cases h
  exact pending_ensureInitialized hready

end

/-- The merged rows, to the end: what a loop over `next_projected` sees. -/
def collect (cursor : StreamingOverlayCursor K V) : Except RowPageError (List (K × V)) :=
  match hnext : cursor.nextProjected with
  | .error e => .error e
  | .ok (none, _) => .ok []
  | .ok (some row, next) =>
    match next.collect with
    | .error e => .error e
    | .ok rows => .ok (row :: rows)
termination_by cursor.pending
decreasing_by exact pending_nextProjected hnext

end StreamingOverlayCursor

end HawDB
