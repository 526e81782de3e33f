import HawDB.Proofs.LockManager

/-!
# What the lock table keeps

What its locks cover (`lock_coverage_sound`), and its limits (`lock_table_within_limits_iff`).
-/

namespace HawDB

open List Function LockTable LockTableRun

/-! ## Coverage -/

section

variable {table table' : LockTable} {t : ℕ} {request : LockRequest}

lemma coversAll_iff : table.coversAll t requests ↔ SetCovers (table.savepoint t) requests := by
  simp only [coversAll, SetCovers, all_eq_true, any_eq_true, Bool.and_eq_true, decide_eq_true_eq]
  refine forall₂_congr fun r _ => ?_
  constructor
  · rintro ⟨⟨u, q⟩, hmem, rfl, hq⟩
    exact ⟨q, mem_savepoint.2 hmem, hq⟩
  · rintro ⟨q, hmem, hq⟩
    exact ⟨⟨t, q⟩, mem_savepoint.1 hmem, rfl, hq⟩

lemma modeCovers_coveringMode (mode : LockMode) (held : List HeldLock) :
    modeCovers (coveringMode mode held) mode := by
  unfold coveringMode modeCovers
  split_ifs <;> simp

lemma requestCovers_normalizedRequest (table : LockTable) (t : ℕ) (request : LockRequest) :
    requestCovers (table.normalizedRequest t request) request := by
  obtain ⟨mode, target⟩ := request
  unfold normalizedRequest
  split <;> rename_i htarget <;> dsimp only at htarget ⊢
  · subst htarget
    split_ifs
    · exact requestCovers_refl _
    · simp [requestCovers, modeCovers_coveringMode, targetCovers]
  · subst htarget
    split_ifs
    · exact requestCovers_refl _
    · simp [requestCovers, modeCovers_coveringMode, targetCovers]
  · exact requestCovers_refl _

variable [TypeSizes]

lemma exists_covers_grant (h : table.grant t request = (table', .ok ())) :
    ∃ held ∈ table'.savepoint t, requestCovers held request := by
  unfold grant at h
  dsimp only at h
  split_ifs at h with hcovers <;> cases h
  · exact coversAll_iff.1 hcovers request mem_cons_self
  · exact ⟨request, mem_savepoint.2 (by simp), requestCovers_refl request⟩

end

/-- A lock conflicts with all that what it covers conflicts with, and no grant loses coverage: the
locks of the transaction cover afterwards all they covered before, the granted request, and the
request it was widened from. -/
theorem lock_coverage_sound [TypeSizes] : (∀ held requested other : LockRequest,
      modeCovers held.mode requested.mode = true →
      targetCovers held.target requested.target = true →
      requestsConflict other requested = true → requestsConflict other held = true) ∧
    ∀ (table table' : LockTable) (t : ℕ) (request : LockRequest),
      (table.grant t request = (table', .ok ()) →
        table'.coversAll t [request] = true ∧
        ∀ requests, table.coversAll t requests = true → table'.coversAll t requests = true) ∧
      (table.grant t (table.normalizedRequest t request) = (table', .ok ()) →
        table'.coversAll t [request] = true ∧
        ∀ requests, table.coversAll t requests = true → table'.coversAll t requests = true) := by
  have hkeep : ∀ {table table' : LockTable} {t : ℕ} {request : LockRequest},
      table.grant t request = (table', .ok ()) →
      ∀ requests, table.coversAll t requests = true → table'.coversAll t requests = true :=
    fun h requests hcovers =>
      coversAll_iff.2 ((setCovers_grant h).trans (coversAll_iff.1 hcovers))
  refine ⟨fun held requested other hmode htarget hconflict => ?_, fun table table' t request =>
    ⟨fun h => ⟨coversAll_iff.2 fun r hr => ?_, hkeep h⟩,
      fun h => ⟨coversAll_iff.2 fun r hr => ?_, hkeep h⟩⟩⟩
  · rw [requestsConflict_comm] at hconflict ⊢
    exact requestsConflict_of_covers (by rw [requestCovers, hmode, htarget]; rfl) hconflict
  · obtain rfl := mem_singleton.1 hr
    exact exists_covers_grant h
  · obtain rfl := mem_singleton.1 hr
    obtain ⟨held, hheld, hcovers⟩ := exists_covers_grant h
    exact ⟨held, hheld, requestCovers_trans hcovers (requestCovers_normalizedRequest table t r)⟩

/-! ## Limits -/

section

variable [TypeSizes]

def heldBytes (locks : List HeldLock) : ℕ := (locks.map heldLockEstimatedBytes).sum

/-- The recorded bytes are exact, and the table is within its limits. -/
structure LockTable.Budgeted (table : LockTable) : Prop where
  exact_bytes : table.estimatedBytes = heldBytes table.locks
  entries_le : table.locks.length ≤ table.limits.maxEntries
  bytes_le : table.estimatedBytes ≤ table.limits.maxBytes

/-- The locks that stay beside a request when it is granted. -/
def LockTable.kept (table : LockTable) (t : ℕ) (request : LockRequest) : List HeldLock :=
  table.locks.filter fun held => !superseded t request held

/-- A restore finds room for the locks it brings back beside those of the other transactions. A
grant that adds a lock counts what it adds: neither of its sums saturates. -/
def LockTableRun.Fits (s : LockTableRun) : LockTableCall → Prop
  | .grant t request => (s.table.grant t request).2 = .ok () →
      s.table.coversAll t [request] = false →
        (s.table.kept t request).length + 1 ≤ s.table.limits.maxEntries ∧
        heldBytes (s.table.kept t request) + lockRequestEstimatedBytes request ≤ usizeMax
  | .restore t savepoint => ∀ requests, (s.savepoints t)[savepoint]? = some requests →
      (s.table.releaseTransaction t).locks.length + requests.length ≤ s.table.limits.maxEntries ∧
      heldBytes (s.table.releaseTransaction t).locks +
        (requests.map lockRequestEstimatedBytes).sum ≤ s.table.limits.maxBytes
  | _ => True

lemma heldBytes_append (l m : List HeldLock) :
    heldBytes (l ++ m) = heldBytes l + heldBytes m := by
  simp [heldBytes]

lemma heldBytes_filter (p : HeldLock → Bool) (l : List HeldLock) :
    heldBytes (l.filter p) + heldBytes (l.filter fun held => !p held) = heldBytes l := by
  induction l with
  | nil => rfl
  | cons held l ih =>
    by_cases hp : p held
    · simp only [heldBytes, filter_cons, hp, if_true, map_cons, sum_cons,
        Bool.not_true, Bool.false_eq_true, if_false] at ih ⊢
      omega
    rw [Bool.not_eq_true] at hp
    simp only [heldBytes, filter_cons, hp, map_cons, sum_cons, Bool.not_false,
      Bool.false_eq_true, if_false, if_true] at ih ⊢
    omega

variable {table table' : LockTable} {t : ℕ} {request : LockRequest}

omit [TypeSizes] in
lemma satAdd_eq_add {a b : ℕ} : satAdd a b = a + b ↔ a + b ≤ usizeMax := by
  unfold satAdd
  omega

/-- What a grant that adds a lock leaves, in a table with exact bytes. -/
lemma LockTable.Budgeted.grant_adds (h : table.Budgeted)
    (hgrant : table.grant t request = (table', .ok ()))
    (hcovers : table.coversAll t [request] = false) :
    table'.limits = table.limits ∧ table'.locks = table.kept t request ++ [⟨t, request⟩] ∧
      table'.estimatedBytes =
        satAdd (heldBytes (table.kept t request)) (lockRequestEstimatedBytes request) ∧
      satAdd (table.kept t request).length 1 ≤ table.limits.maxEntries ∧
      table'.estimatedBytes ≤ table.limits.maxBytes := by
  have hlen := table.locks.length_eq_length_filter_add (superseded t request)
  have hsum := heldBytes_filter (superseded t request) table.locks
  have hexact := h.exact_bytes
  have hentries : table.locks.length - (table.locks.filter (superseded t request)).length =
      (table.kept t request).length := by
    unfold kept
    omega
  have hbytes : table.estimatedBytes -
      ((table.locks.filter (superseded t request)).map heldLockEstimatedBytes).sum =
        heldBytes (table.kept t request) := by
    unfold kept heldBytes at *
    omega
  unfold LockTable.grant at hgrant
  rw [if_neg (by rw [hcovers]; exact Bool.false_ne_true)] at hgrant
  dsimp only at hgrant
  rw [hentries, hbytes] at hgrant
  split_ifs at hgrant with hlimits <;> cases hgrant
  rw [not_or, not_lt, not_lt] at hlimits
  exact ⟨rfl, rfl, rfl, hlimits⟩

/-- A granted lock keeps the budget exactly when its sums do not saturate. -/
lemma LockTable.Budgeted.grant_iff (h : table.Budgeted)
    (hgrant : table.grant t request = (table', .ok ()))
    (hcovers : table.coversAll t [request] = false) :
    table'.limits = table.limits ∧ (table'.Budgeted ↔
      (table.kept t request).length + 1 ≤ table.limits.maxEntries ∧
      heldBytes (table.kept t request) + lockRequestEstimatedBytes request ≤ usizeMax) := by
  obtain ⟨hlimits, hlocks, hbytes, -, hmax⟩ := h.grant_adds hgrant hcovers
  have hlen : table'.locks.length = (table.kept t request).length + 1 := by
    rw [hlocks, length_append, length_singleton]
  have hheld : heldBytes table'.locks =
      heldBytes (table.kept t request) + lockRequestEstimatedBytes request := by
    rw [hlocks, heldBytes_append]
    simp [heldBytes, heldLockEstimatedBytes]
  refine ⟨hlimits, ?_⟩
  rw [← satAdd_eq_add, ← hbytes, ← hheld, ← hlen, ← hlimits]
  exact ⟨fun h' => ⟨h'.entries_le, h'.exact_bytes⟩, fun h' => ⟨h'.2, h'.1, hlimits ▸ hmax⟩⟩

lemma LockTable.Budgeted.releaseTransaction (h : table.Budgeted) (t : ℕ) :
    (table.releaseTransaction t).Budgeted where
  exact_bytes := rfl
  entries_le := (length_filter_le _ _).trans h.entries_le
  bytes_le := by
    have hsum := heldBytes_filter (fun held => decide (held.transactionId ≠ t)) table.locks
    have hexact := h.exact_bytes
    have hle := h.bytes_le
    show heldBytes _ ≤ _
    dsimp only [LockTable.releaseTransaction]
    omega

lemma budgeted_restoreTransaction (requests : List LockRequest) :
    (table.restoreTransaction t requests).Budgeted ↔
      (table.releaseTransaction t).locks.length + requests.length ≤ table.limits.maxEntries ∧
      heldBytes (table.releaseTransaction t).locks +
        (requests.map lockRequestEstimatedBytes).sum ≤ table.limits.maxBytes := by
  have hlen : (table.restoreTransaction t requests).locks.length =
      (table.releaseTransaction t).locks.length + requests.length := by
    simp [restoreTransaction]
  have hsum : heldBytes (table.restoreTransaction t requests).locks =
      heldBytes (table.releaseTransaction t).locks +
        (requests.map lockRequestEstimatedBytes).sum := by
    show heldBytes (_ ++ _) = _
    rw [heldBytes_append]
    simp [heldBytes, heldLockEstimatedBytes, comp_def]
  rw [← hlen, ← hsum]
  exact ⟨fun h => ⟨h.entries_le, h.bytes_le⟩, fun h => ⟨rfl, h.1, h.2⟩⟩

lemma LockTableRun.budgeted_step {s : LockTableRun} (h : s.table.Budgeted) (call : LockTableCall) :
    (s.step call).table.Budgeted ↔ s.Fits call := by
  cases call with
  | grant t request =>
    unfold LockTableRun.step LockTableRun.Fits
    dsimp only
    by_cases hcovers : s.table.coversAll t [request]
    · have hsame : (s.table.grant t request).1 = s.table := by
        rw [LockTable.grant, if_pos hcovers]
      rw [hsame]
      exact iff_of_true h fun _ hnot => absurd hcovers (by rw [hnot]; exact Bool.false_ne_true)
    rw [Bool.not_eq_true] at hcovers
    rcases hgrant : s.table.grant t request with ⟨table, e | ok⟩
    · obtain rfl := grant_error hgrant
      exact iff_of_true h fun hok => by cases hok
    · exact (h.grant_iff hgrant hcovers).2.trans ⟨fun hfits _ _ => hfits, fun hfits =>
        hfits rfl hcovers⟩
  | release t => exact iff_of_true (h.releaseTransaction t) trivial
  | savepoint t => exact iff_of_true h trivial
  | restore t savepoint =>
    cases hsaved : (s.savepoints t)[savepoint]? with
    | none =>
      have hskip : s.step (.restore t savepoint) = s := by simp [step, hsaved]
      rw [hskip]
      refine iff_of_true h fun requests hrequests => ?_
      rw [hsaved] at hrequests
      cases hrequests
    | some requests =>
      have hrestore : (s.step (.restore t savepoint)).table =
          s.table.restoreTransaction t requests := by simp [step, hsaved]
      rw [hrestore]
      refine (budgeted_restoreTransaction requests).trans ⟨fun hfits r hr => ?_, fun hfits =>
        hfits requests hsaved⟩
      cases hsaved.symm.trans hr
      exact hfits

def LockTableRun.before (s : LockTableRun) (calls : List LockTableCall) (n : ℕ) : LockTableRun :=
  s.run (calls.take n)

lemma LockTableRun.budgeted_run : ∀ {calls : List LockTableCall} {s : LockTableRun},
    s.table.Budgeted → ((∀ n, (s.before calls n).table.Budgeted) ↔
      ∀ n call, calls[n]? = some call → (s.before calls n).Fits call)
  | [], s, h => by
    refine iff_of_true (fun n => ?_) fun n call hcall => ?_
    · rw [before, take_nil]
      exact h
    · simp at hcall
  | call :: calls, s, h => by
    have hstep := budgeted_step h call
    have hbefore : ∀ n, s.before (call :: calls) (n + 1) = (s.step call).before calls n :=
      fun n => rfl
    have hrest : (s.step call).table.Budgeted →
        ((∀ n, ((s.step call).before calls n).table.Budgeted) ↔
          ∀ n call', calls[n]? = some call' → ((s.step call).before calls n).Fits call') :=
      budgeted_run
    constructor
    · intro hall n call' hcall'
      cases n with
      | zero =>
        obtain rfl : call = call' := by simpa using hcall'
        exact hstep.1 (hall 1)
      | succ n => exact (hrest (hall 1)).1 (fun m => hall (m + 1)) n call' (by simpa using hcall')
    · intro hall n
      have hfirst : (s.step call).table.Budgeted := hstep.2 (hall 0 call rfl)
      cases n with
      | zero => exact h
      | succ n =>
        exact (hrest hfirst).2 (fun m call' hcall' => hall (m + 1) call' (by simpa using hcall')) n

/-- Along a run from the empty table the recorded bytes are exact and the limits are kept exactly
when every restore finds room for the locks it brings back, and no sum of a grant saturates: with
limits below the largest `usize` none does. A grant or an enqueue that fails leaves the table or the
queue as it was. -/
theorem lock_table_within_limits_iff (limits : LockTableLimits) (calls : List LockTableCall) :
    ((∀ n, ((LockTableRun.start limits).before calls n).table.Budgeted) ↔
      ∀ n call, calls[n]? = some call →
        ((LockTableRun.start limits).before calls n).Fits call) ∧
    (∀ s : LockTableRun, s.table.Budgeted → s.table.limits.maxEntries < usizeMax →
      s.table.limits.maxBytes < usizeMax → ∀ t request, s.Fits (.grant t request)) ∧
    (∀ (table : LockTable) (t : ℕ) (request : LockRequest) (e : HawDBError),
      (table.grant t request).2 = .error e → (table.grant t request).1 = table) ∧
    ∀ (queue : LockWaitQueue) (t : ℕ) (request : LockRequest) (e : HawDBError),
      (queue.enqueue t request).2 = .error e → (queue.enqueue t request).1 = queue := by
  have hempty : (empty limits).Budgeted := ⟨rfl, Nat.zero_le _, Nat.zero_le _⟩
  refine ⟨budgeted_run hempty, fun s h hentries hbytes t request hok hcovers => ?_,
    fun table t request e h => grant_error (Prod.ext rfl h),
    fun queue t request e h => LockWaitQueue.enqueue_error (Prod.ext rfl h)⟩
  obtain ⟨-, -, hsum, hnext, hmax⟩ := h.grant_adds (Prod.ext rfl hok) hcovers
  rw [hsum] at hmax
  unfold satAdd at hnext hmax
  omega

/-- Transaction 1 takes two locks and a savepoint and widens the locks to one; transaction 2 takes
the room this leaves; then transaction 1 goes back. -/
def restoreWithoutRoom : List LockTableCall :=
  let typeRequest (relType : Option ℕ) : LockRequest :=
    ⟨.shared, .graphAdjacency 7 relType .outgoing⟩
  [.grant 1 (typeRequest (some 1)), .grant 1 (typeRequest (some 2)), .savepoint 1,
    .grant 1 (typeRequest none), .grant 2 ⟨.shared, .graphNode 9⟩, .restore 1 0]

omit [TypeSizes] in
/-- A table limited to two entries ends with three. -/
theorem restore_exceeds_max_entries :
    letI : TypeSizes := ⟨136, 24, 24, 40, 56, 80, 16, 1, 32⟩
    ¬ ∀ (limits : LockTableLimits) (calls : List LockTableCall) (n : ℕ),
      ((LockTableRun.start limits).before calls n).table.Budgeted := by
  let _ : TypeSizes := ⟨136, 24, 24, 40, 56, 80, 16, 1, 32⟩
  intro h
  have hentries := (h { maxEntries := 2 } restoreWithoutRoom 6).entries_le
  exact absurd hentries (by decide)

omit [TypeSizes] in
/-- Without the grant to transaction 2 the restore finds room. -/
theorem lock_table_within_limits_restored :
    letI : TypeSizes := ⟨136, 24, 24, 40, 56, 80, 16, 1, 32⟩
    ((LockTableRun.start { maxEntries := 2 }).before
      (restoreWithoutRoom.eraseIdx 4) 5).table.Budgeted := by
  let _ : TypeSizes := ⟨136, 24, 24, 40, 56, 80, 16, 1, 32⟩
  refine (lock_table_within_limits_iff { maxEntries := 2 }
    (restoreWithoutRoom.eraseIdx 4)).1.2 (fun n call hcall => ?_) 5
  match n with
  | 0 | 1 | 3 =>
    obtain rfl := Option.some.inj hcall
    exact fun _ _ => by decide
  | 2 =>
    obtain rfl := Option.some.inj hcall
    trivial
  | 4 =>
    cases hcall
    intro requests hrequests
    obtain rfl := Option.some.inj hrequests
    decide
  | n + 5 => cases hcall

end

end HawDB
