import HawDB.LockManager
import HawDB.Proofs.LockCoverage

/-!
# No two transactions hold conflicting locks

`LockManager.Effect` is all a turn can do to the guarded state, and `Change` all an event can do. A
restore puts locks back without looking for blockers, so what is preserved is conflict-freedom
together with the coverage of savepoints (`Sound`).
-/

namespace HawDB

open List LockTable Function LockManager

lemma mem_btreeSet : a ∈ btreeSet ids ↔ a ∈ ids := by
  simp [btreeSet]

namespace LockTable

lemma mem_savepoint {table : LockTable} : r ∈ table.savepoint t ↔ ⟨t, r⟩ ∈ table.locks := by
  simp only [savepoint, mem_map, mem_filter, decide_eq_true_eq]
  constructor
  · rintro ⟨⟨u, q⟩, ⟨hmem, rfl⟩, rfl⟩
    exact hmem
  · exact fun h => ⟨⟨t, r⟩, ⟨h, rfl⟩, rfl⟩

lemma mem_blockers {table : LockTable} :
    u ∈ table.blockers t r ↔ u ≠ t ∧ ∃ q ∈ table.savepoint u, requestsConflict q r = true := by
  simp only [blockers, mem_btreeSet, mem_map, mem_filter, mem_savepoint]
  constructor
  · rintro ⟨⟨v, q⟩, ⟨hmem, h⟩, rfl⟩
    rw [Bool.and_eq_true, decide_eq_true_eq] at h
    exact ⟨h.1, q, hmem, h.2⟩
  · rintro ⟨hne, q, hmem, h⟩
    exact ⟨⟨u, q⟩, ⟨hmem, by simp [hne, h]⟩, rfl⟩

variable [TypeSizes] {table table' : LockTable} {t : ℕ} {request : LockRequest}

/-- A grant that fails leaves the table as it was. -/
lemma grant_error (h : table.grant t request = (table', .error e)) : table' = table := by
  unfold grant at h
  dsimp only at h
  split_ifs at h <;> cases h
  rfl

section

variable (h : table.grant t request = (table', .ok ()))

include h

/-- A grant leaves the locks as they are when they cover the request. Otherwise it drops those
the request covers and adds the request. -/
theorem grant_cases :
    table' = table ∨ table'.locks =
      (table.locks.filter fun held => !superseded t request held) ++ [⟨t, request⟩] := by
  unfold grant at h
  dsimp only at h
  split_ifs at h <;> cases h
  · exact .inl rfl
  · exact .inr rfl

lemma savepoint_grant_of_ne (hu : u ≠ t) : table'.savepoint u = table.savepoint u := by
  obtain rfl | hlocks := grant_cases h
  · rfl
  have hlast : filter (fun held : HeldLock => decide (held.transactionId = u))
      [⟨t, request⟩] = [] := by simp [hu.symm]
  rw [savepoint, hlocks, filter_append, hlast, append_nil, filter_filter, savepoint]
  congr 1
  refine filter_congr fun held _ => ?_
  by_cases heq : held.transactionId = u <;> simp [superseded, heq, hu]

lemma mem_savepoint_grant (hr : r ∈ table'.savepoint t) :
    r ∈ table.savepoint t ∨ r = request := by
  obtain rfl | hlocks := grant_cases h
  · exact .inl hr
  rw [mem_savepoint, hlocks, mem_append, mem_filter, mem_singleton, HeldLock.mk.injEq] at hr
  rcases hr with hr | hr
  · exact .inl (mem_savepoint.2 hr.1)
  · exact .inr hr.2

lemma setCovers_grant : SetCovers (table'.savepoint t) (table.savepoint t) := by
  obtain rfl | hlocks := grant_cases h
  · exact .refl _
  intro r hr
  by_cases hc : requestCovers request r = true
  · exact ⟨request, mem_savepoint.2 (by simp [hlocks]), hc⟩
  · refine ⟨r, mem_savepoint.2 ?_, requestCovers_refl r⟩
    rw [mem_savepoint] at hr
    simp [hlocks, hr, superseded, hc]

end

lemma savepoint_releaseTransaction_self : (table.releaseTransaction t).savepoint t = [] := by
  simp [releaseTransaction, savepoint, filter_filter]

lemma savepoint_releaseTransaction_of_ne (hu : u ≠ t) :
    (table.releaseTransaction t).savepoint u = table.savepoint u := by
  simp only [releaseTransaction, savepoint, filter_filter]
  congr 1
  refine filter_congr fun held _ => ?_
  by_cases heq : held.transactionId = u <;> simp [heq, hu]

lemma savepoint_restoreTransaction (saved : List LockRequest) (u : ℕ) :
    (table.restoreTransaction t saved).savepoint u =
      if u = t then saved else table.savepoint u := by
  have happ : (table.restoreTransaction t saved).savepoint u =
      (table.releaseTransaction t).savepoint u ++
        ((saved.map fun request => (⟨t, request⟩ : HeldLock)).filter
          fun held => held.transactionId = u).map HeldLock.request := by
    simp [restoreTransaction, savepoint]
  rw [happ]
  split_ifs with hu
  · subst hu
    rw [savepoint_releaseTransaction_self]
    simp [filter_map, comp_def]
  · rw [savepoint_releaseTransaction_of_ne hu]
    simp [filter_map, comp_def, Ne.symm hu]

end LockTable

namespace LockWaitQueue

variable [TypeSizes] {queue queue' : LockWaitQueue} {t : ℕ} {request : LockRequest}

lemma requests_remove (queue : LockWaitQueue) (t : ℕ) :
    (queue.remove t).requests = queue.requests.eraseP fun r => r.transactionId = t := by
  unfold remove
  split
  · rfl
  · rename_i h
    rw [find?_eq_none] at h
    exact (eraseP_of_forall_not h).symm

lemma enqueue_cases (h : queue.enqueue t request = (queue', .ok ())) :
    queue' = queue ∨ (∀ r ∈ queue.requests, r.transactionId ≠ t) ∧
      queue'.requests = queue.requests ++ [⟨t, request⟩] := by
  unfold enqueue at h
  split at h
  · split_ifs at h <;> cases h
    exact .inl rfl
  rename_i hnone
  simp only [find?_eq_none, decide_eq_true_eq] at hnone
  dsimp only at h
  split_ifs at h <;> cases h
  exact .inr ⟨hnone, rfl⟩

/-- An enqueue that fails leaves the queue as it was. -/
lemma enqueue_error (h : queue.enqueue t request = (queue', .error e)) : queue' = queue := by
  unfold enqueue at h
  split at h
  · split_ifs at h <;> cases h
    rfl
  dsimp only at h
  split_ifs at h <;> cases h
  rfl

lemma requests_remove_enqueue (h : queue.enqueue t request = (queue', .ok ())) :
    (queue'.remove t).requests = (queue.remove t).requests := by
  rw [requests_remove, requests_remove]
  obtain rfl | ⟨hne, hreq⟩ := enqueue_cases h
  · rfl
  · have hne' : ∀ r ∈ queue.requests, ¬ decide (r.transactionId = t) = true := by simpa using hne
    rw [hreq, eraseP_append_right _ hne', eraseP_of_forall_not hne']
    simp

end LockWaitQueue

namespace LockManager

variable [TypeSizes]

/-- What a turn of a transaction can do: nothing, leave the queue, take a lock nothing blocks, or
stay in the queue after the deadlock check. -/
inductive Effect (t : ℕ) (m : LockManager) : LockManager → Prop
  | idle : Effect t m m
  | withdraw {waiters : LockWaitQueue} (h : waiters.requests = (m.waiters.remove t).requests) :
      Effect t m ⟨m.locks, waiters⟩
  | grant {request : LockRequest} {locks : LockTable} (hfree : m.blockers t request = [])
      (h : m.locks.grant t request = (locks, .ok ())) : Effect t m ⟨locks, m.waiters.remove t⟩
  | wait {request : LockRequest} {waiters : LockWaitQueue}
      (h : m.waiters.enqueue t request = (waiters, .ok ()))
      (hcheck : waiters.checkDeadlock t m.locks = .ok ()) : Effect t m ⟨m.locks, waiters⟩

lemma tryRequest_effect (m : LockManager) (call : AcquireCall) (request : LockRequest)
    (expired : Bool) : Effect call.transactionId m (m.tryRequest call request expired).1 := by
  unfold tryRequest
  dsimp only
  split
  · rename_i hfree
    split
    · rename_i hgrant
      exact .grant hfree hgrant
    · rename_i hgrant
      obtain rfl := LockTable.grant_error hgrant
      exact .withdraw rfl
  · split
    · rename_i hq
      obtain rfl := LockWaitQueue.enqueue_error hq
      exact .withdraw rfl
    · rename_i hq
      split
      · exact .withdraw (LockWaitQueue.requests_remove_enqueue hq)
      rename_i hcheck
      split
      · exact .withdraw (LockWaitQueue.requests_remove_enqueue hq)
      · exact .wait hq hcheck

lemma turn_effect (m : LockManager) (call : AcquireCall) (expired : Bool) :
    Effect call.transactionId m (m.turn call expired).1 := by
  unfold turn
  split
  · exact tryRequest_effect m call _ expired
  · exact .idle
  · rename_i rest _ _
    dsimp only
    split
    · exact .idle
    · split
      · exact .idle
      · exact tryRequest_effect m { call with rest := rest } _ expired

omit [TypeSizes] in
lemma mem_blockers {m : LockManager} :
    u ∈ m.blockers t r ↔ u ∈ m.locks.blockers t r ∨ u ∈ m.waiters.blockers t r := by
  rw [blockers, mem_btreeSet, mem_append]

end LockManager

namespace LockSystem

variable [TypeSizes]

/-- What an event can do to the guarded state and to the savepoints. -/
inductive Change (s : LockSystem) : LockManager → (ℕ → List (List LockRequest)) → Prop
  | turn {t : ℕ} {m : LockManager} (h : LockManager.Effect t s.manager m) : Change s m s.savepoints
  | release (t : ℕ) : Change s (s.manager.release t) (Function.update s.savepoints t [])
  | restore (t newer : ℕ) {saved : List LockRequest} {older : List (List LockRequest)}
      (h : (s.savepoints t).drop newer = saved :: older) :
      Change s (s.manager.restore t saved) (Function.update s.savepoints t (saved :: older))
  | savepoint (t : ℕ) :
      Change s s.manager
        (Function.update s.savepoints t (s.manager.locks.savepoint t :: s.savepoints t))
  | forget (t : ℕ) : Change s s.manager (Function.update s.savepoints t (s.savepoints t).tail)

lemma stepFree_change (s : LockSystem) (event : Event) :
    Change s (s.stepFree event).manager (s.stepFree event).savepoints := by
  have idle : Change s s.manager s.savepoints := .turn (t := 0) .idle
  cases event with
  | acquire | turn | wake => exact idle
  | timeout i | poisoned i =>
    simp only [stepFree]
    split
    · exact .turn (.withdraw rfl)
    · exact idle
  | release t => exact .release t
  | savepoint t => exact .savepoint t
  | restore t newer =>
    simp only [stepFree]
    split
    · rename_i hdrop
      exact .restore t newer hdrop
    · exact idle
  | forget t => exact .forget t

lemma step_change (s : LockSystem) (event : Event) :
    Change s (s.step event).manager (s.step event).savepoints := by
  unfold step
  split
  · exact stepFree_change s event
  rename_i call _
  cases event with
  | turn expired =>
    have h := turn_effect s.manager call expired
    simp only [stepHeld]
    split <;> rename_i heq <;> rw [heq] at h <;> exact .turn h
  | _ => exact .turn (t := 0) .idle

end LockSystem

/-- No two transactions hold conflicting locks. -/
def LockTable.ConflictFree (table : LockTable) : Prop :=
  ∀ t u, t ≠ u → ∀ r ∈ table.savepoint t, ∀ q ∈ table.savepoint u, requestsConflict r q = false

lemma LockTable.ConflictFree.of_change {table table' : LockTable}
    (h : table.ConflictFree) (hne : ∀ u, u ≠ t → table'.savepoint u = table.savepoint u)
    (ht : ∀ r ∈ table'.savepoint t, ∀ u, u ≠ t → ∀ q ∈ table.savepoint u,
      requestsConflict r q = false) : table'.ConflictFree := by
  intro u v huv r hr q hq
  by_cases hu : u = t
  · subst hu
    rw [hne v huv.symm] at hq
    exact ht r hr v huv.symm q hq
  rw [hne u hu] at hr
  by_cases hv : v = t
  · subst hv
    rw [requestsConflict_comm]
    exact ht q hq u hu r hr
  · rw [hne v hv] at hq
    exact h u v huv r hr q hq

namespace LockSystem

/-- No conflicts, and what each transaction holds covers its savepoints, newest first. -/
structure Sound (s : LockSystem) : Prop where
  conflictFree : s.manager.locks.ConflictFree
  covered : ∀ t, (s.manager.locks.savepoint t :: s.savepoints t).Pairwise SetCovers

variable {s : LockSystem}

lemma sound_init (tableLimits queueLimits : LockTableLimits) :
    (init tableLimits queueLimits).Sound where
  conflictFree := fun _ _ _ r hr => by simp [init, empty, savepoint] at hr
  covered := fun t => by simp [init]

lemma Sound.not_conflict_of_covered (h : s.Sound) (hu : u ≠ t)
    (hc : SetCovers (s.manager.locks.savepoint t) saved) (hr : r ∈ saved)
    (hq : q ∈ s.manager.locks.savepoint u) : requestsConflict r q = false := by
  obtain ⟨held, hheld, hcov⟩ := hc r hr
  by_contra hcon
  have hheldq := requestsConflict_of_covers hcov (eq_true_of_ne_false hcon)
  rw [h.conflictFree t u hu.symm held hheld q hq] at hheldq
  exact absurd hheldq (by decide)

lemma Sound.of_savepoints (h : s.Sound)
    (hstack : (s.manager.locks.savepoint t :: stack).Pairwise SetCovers) :
    Sound { s with savepoints := Function.update s.savepoints t stack } where
  conflictFree := h.conflictFree
  covered := by
    intro u
    by_cases hu : u = t
    · subst hu
      simpa using hstack
    · simpa [update_of_ne hu] using h.covered u

variable [TypeSizes]

lemma Sound.grant (h : s.Sound) {locks : LockTable} (hfree : s.manager.blockers t request = [])
    (hgrant : s.manager.locks.grant t request = (locks, .ok ())) :
    locks.ConflictFree ∧ ∀ u, (locks.savepoint u :: s.savepoints u).Pairwise SetCovers := by
  refine ⟨h.conflictFree.of_change (fun u => savepoint_grant_of_ne hgrant) ?_, ?_⟩
  · intro r hr u hu q hq
    rcases mem_savepoint_grant hgrant hr with hr | rfl
    · exact h.conflictFree t u hu.symm r hr q hq
    by_contra hcon
    have hb : u ∈ s.manager.blockers t r := by
      refine mem_blockers.2 (.inl (mem_blockers.2 ⟨hu, q, hq, ?_⟩))
      rw [requestsConflict_comm]
      exact eq_true_of_ne_false hcon
    rw [hfree] at hb
    exact absurd hb not_mem_nil
  · intro u
    by_cases hu : u = t
    · subst hu
      have hcov := h.covered u
      rw [pairwise_cons] at hcov ⊢
      exact ⟨fun saved hs => (setCovers_grant hgrant).trans (hcov.1 saved hs), hcov.2⟩
    · rw [savepoint_grant_of_ne hgrant hu]
      exact h.covered u

lemma Sound.release (h : s.Sound) (t : ℕ) :
    Sound { s with
      manager := s.manager.release t, savepoints := Function.update s.savepoints t [] } where
  conflictFree := by
    refine h.conflictFree.of_change (fun u => savepoint_releaseTransaction_of_ne) fun r hr => ?_
    rw [LockManager.release, savepoint_releaseTransaction_self] at hr
    exact absurd hr not_mem_nil
  covered := by
    intro u
    by_cases hu : u = t
    · subst hu
      simp
    · simp only [LockManager.release, Function.update_of_ne hu,
        savepoint_releaseTransaction_of_ne hu]
      exact h.covered u

/-- The savepoint gone back to is covered, so it conflicts with nothing granted meanwhile. -/
theorem Sound.restore (h : s.Sound) (hdrop : (s.savepoints t).drop newer = saved :: older) :
    Sound { s with
      manager := s.manager.restore t saved
      savepoints := Function.update s.savepoints t (saved :: older) } := by
  have hsub : (saved :: older).Sublist (s.savepoints t) := hdrop ▸ drop_sublist newer _
  have hcov := pairwise_cons.1 (h.covered t)
  refine ⟨h.conflictFree.of_change (t := t) (fun u hu => ?_) ?_, fun u => ?_⟩
  · rw [LockManager.restore, savepoint_restoreTransaction, if_neg hu]
  · intro r hr u hu q hq
    rw [LockManager.restore, savepoint_restoreTransaction, if_pos rfl] at hr
    exact h.not_conflict_of_covered hu (hcov.1 saved (hsub.subset (by simp))) hr hq
  · simp only [LockManager.restore, savepoint_restoreTransaction]
    by_cases hu : u = t
    · subst hu
      have hold := hcov.2.sublist hsub
      rw [if_pos rfl, Function.update_self, pairwise_cons]
      refine ⟨fun x hx => ?_, hold⟩
      rcases mem_cons.1 hx with rfl | hx
      · exact .refl _
      · exact (pairwise_cons.1 hold).1 x hx
    · rw [if_neg hu, Function.update_of_ne hu]
      exact h.covered u

lemma Sound.change (h : s.Sound) {savepoints : ℕ → List (List LockRequest)}
    (hc : Change s m savepoints) : Sound { s with manager := m, savepoints } := by
  cases hc with
  | turn heffect =>
    cases heffect with
    | idle | withdraw | wait => exact ⟨h.conflictFree, h.covered⟩
    | grant hfree hgrant =>
      obtain ⟨hcf, hcov⟩ := h.grant hfree hgrant
      exact ⟨hcf, hcov⟩
  | release t => exact h.release t
  | restore t newer hdrop => exact h.restore hdrop
  | savepoint t =>
    refine h.of_savepoints ?_
    have hcov := h.covered t
    rw [pairwise_cons]
    refine ⟨fun x hx => ?_, hcov⟩
    rcases mem_cons.1 hx with rfl | hx
    · exact .refl _
    · exact (pairwise_cons.1 hcov).1 x hx
  | forget t =>
    exact h.of_savepoints ((h.covered t).sublist (Sublist.cons_cons _ (tail_sublist _)))

lemma Sound.step (h : s.Sound) (event : Event) : (s.step event).Sound := by
  obtain ⟨hcf, hcov⟩ := h.change (step_change s event)
  exact ⟨hcf, hcov⟩

lemma Sound.run (h : s.Sound) (events : List Event) : (s.run events).Sound := by
  induction events generalizing s with
  | nil => exact h
  | cons event events ih => exact ih (h.step event)

/-- In every reachable state, two transactions never hold requests that conflict. -/
theorem no_conflicting_holders (tableLimits queueLimits : LockTableLimits) (events : List Event)
    (held other : HeldLock)
    (hheld : held ∈ ((init tableLimits queueLimits).run events).manager.locks.locks)
    (hother : other ∈ ((init tableLimits queueLimits).run events).manager.locks.locks)
    (hne : held.transactionId ≠ other.transactionId) :
    requestsConflict held.request other.request = false :=
  ((sound_init tableLimits queueLimits).run events).conflictFree _ _ hne _
    (mem_savepoint.2 hheld) _ (mem_savepoint.2 hother)

/-- A shared lock on one relationship type of a node, and an exclusive one. -/
def typeLock (mode : LockMode) (relType : ℕ) : LockRequest :=
  ⟨mode, .graphAdjacency 7 (some relType) .outgoing⟩

/-- Transaction 1 escalates its second lock to all types of the node, then goes back to before it;
transaction 2 then takes what the escalated lock would have kept from it. -/
def escalateAndRestore : List Event :=
  [.acquire 1 10 [typeLock .shared 1], .turn false, .turn false, .savepoint 1,
    .acquire 1 10 [typeLock .shared 2], .turn false, .turn false, .restore 1 0,
    .acquire 2 10 [typeLock .exclusive 2], .turn false, .turn false]

omit [TypeSizes] in
theorem no_conflicting_holders_escalateAndRestore :
    letI : TypeSizes := ⟨136, 24, 24, 40, 56, 80, 16, 1, 32⟩
    ((init { escalationEntriesPerTable := 1 } {}).run escalateAndRestore).manager.locks.locks =
        [⟨1, typeLock .shared 1⟩, ⟨2, typeLock .exclusive 2⟩] ∧
      requestsConflict (typeLock .shared 1) (typeLock .exclusive 2) = false :=
  letI : TypeSizes := ⟨136, 24, 24, 40, 56, 80, 16, 1, 32⟩
  ⟨by decide, no_conflicting_holders { escalationEntriesPerTable := 1 } {} escalateAndRestore
    ⟨1, typeLock .shared 1⟩ ⟨2, typeLock .exclusive 2⟩ (by decide) (by decide) (by decide)⟩

def Event.drops (t : ℕ) : Event → Bool
  | .release u | .restore u _ => u = t
  | _ => false

lemma setCovers_step (h : event.drops t = false) :
    SetCovers ((s.step event).manager.locks.savepoint t) (s.manager.locks.savepoint t) := by
  unfold step
  split
  · cases event with
    | release u =>
      rw [stepFree, LockManager.release,
        savepoint_releaseTransaction_of_ne (Ne.symm (of_decide_eq_false h))]
      exact .refl _
    | restore u =>
      simp only [stepFree]
      split
      · rw [LockManager.restore, savepoint_restoreTransaction,
          if_neg (Ne.symm (of_decide_eq_false h))]
        exact .refl _
      · exact .refl _
    | timeout | poisoned =>
      simp only [stepFree]
      split <;> exact .refl _
    | _ => exact .refl _
  rename_i call _
  cases event with
  | turn expired =>
    have heffect := turn_effect s.manager call expired
    have hstep : (s.manager.turn call expired).1 = (s.stepHeld call (.turn expired)).manager := by
      simp only [stepHeld]
      split <;> rename_i heq <;> rw [heq]
    generalize (s.stepHeld call (.turn expired)).manager = m at hstep ⊢
    rw [hstep] at heffect
    cases heffect with
    | idle | withdraw | wait => exact .refl _
    | grant _ hgrant =>
      by_cases ht : t = call.transactionId
      · subst ht
        exact setCovers_grant hgrant
      · rw [savepoint_grant_of_ne hgrant ht]
        exact .refl _
  | _ => exact .refl _

lemma setCovers_run (h : ∀ event ∈ events, event.drops t = false) :
    SetCovers ((s.run events).manager.locks.savepoint t) (s.manager.locks.savepoint t) := by
  induction events generalizing s with
  | nil => exact .refl _
  | cons event events ih =>
    obtain ⟨hevent, hevents⟩ := forall_mem_cons.1 h
    exact (ih hevents).trans (setCovers_step hevent)

/-- Whatever happens but its own release or restore, what a transaction holds stays covered, and no
other transaction gets a lock that conflicts with it. -/
theorem locks_kept_until_dropped (tableLimits queueLimits : LockTableLimits)
    (before after : List Event) (t : ℕ) :
    let s := (init tableLimits queueLimits).run before
    let s' := s.run (after.filter (!·.drops t))
    SetCovers (s'.manager.locks.savepoint t) (s.manager.locks.savepoint t) ∧
      ∀ r ∈ s.manager.locks.savepoint t, ∀ u ≠ t, ∀ q ∈ s'.manager.locks.savepoint u,
        requestsConflict r q = false := by
  intro s s'
  have hcovers : SetCovers (s'.manager.locks.savepoint t) (s.manager.locks.savepoint t) :=
    setCovers_run fun event hevent => by simpa using (mem_filter.1 hevent).2
  have hsound : s'.Sound := ((sound_init tableLimits queueLimits).run before).run _
  exact ⟨hcovers, fun r hr u hu q hq => hsound.not_conflict_of_covered hu hcovers hr hq⟩

end LockSystem

end HawDB
