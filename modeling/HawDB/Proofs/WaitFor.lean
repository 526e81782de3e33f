import HawDB.Acyclic
import HawDB.Proofs.LockManager

/-!
# The wait-for graph has no cycle

A transaction whose locks change leaves the queue in the same critical section, so all the edges
that appear lead to it and none leads on (`acyclic_of_change`). The only other new edges are those
of a transaction that joins the queue at its end, and the deadlock search sees them
(`checkDeadlock_sound`). So some waiter can always go on (`exists_grantable_waiter`), and by the
order of the queue none is overtaken (`no_overtaking`).
-/

namespace HawDB

open List LockWaitQueue

namespace LockWaitQueue

def Distinct (queue : LockWaitQueue) : Prop :=
  (queue.requests.map HeldLock.transactionId).Nodup

lemma mem_blockers {queue : LockWaitQueue} : u ∈ queue.blockers t r ↔
      ∃ q, ⟨u, q⟩ ∈ queue.requests.takeWhile (fun p => p.transactionId ≠ t) ∧
        requestsConflict q r = true := by
  simp only [blockers, mem_btreeSet, mem_map, mem_filter]
  constructor
  · rintro ⟨⟨v, q⟩, ⟨hmem, h⟩, rfl⟩
    exact ⟨q, hmem, h⟩
  · rintro ⟨q, hmem, h⟩
    exact ⟨⟨u, q⟩, ⟨hmem, h⟩, rfl⟩

lemma pendingRequest_eq_some {queue : LockWaitQueue} (hq : queue.Distinct) :
    queue.pendingRequest w = some r ↔ ⟨w, r⟩ ∈ queue.requests := by
  unfold pendingRequest
  rw [Option.map_eq_some_iff]
  constructor
  · rintro ⟨⟨v, q⟩, hfind, rfl⟩
    have hv := find?_some hfind
    simp only [decide_eq_true_eq] at hv
    subst hv
    exact mem_reverse.1 (mem_of_find?_eq_some hfind)
  · intro hmem
    have hsome : (queue.requests.reverse.find? fun p => p.transactionId = w).isSome :=
      find?_isSome.2 ⟨_, mem_reverse.2 hmem, by simp⟩
    obtain ⟨p, hp⟩ := Option.isSome_iff_exists.1 hsome
    refine ⟨p, hp, ?_⟩
    have hpid := find?_some hp
    simp only [decide_eq_true_eq] at hpid
    have hpmem := mem_reverse.1 (mem_of_find?_eq_some hp)
    rw [inj_on_of_nodup_map hq hpmem hmem hpid]

lemma exists_mem_of_pendingRequest {queue : LockWaitQueue}
    (h : (queue.pendingRequest w).isSome) : ∃ p ∈ queue.requests, p.transactionId = w := by
  obtain ⟨r, hr⟩ := Option.isSome_iff_exists.1 h
  obtain ⟨p, hp, -⟩ := Option.map_eq_some_iff.1 hr
  exact ⟨p, mem_reverse.1 (mem_of_find?_eq_some hp), by simpa using find?_some hp⟩

end LockWaitQueue

section

variable {queue : LockWaitQueue} {t : ℕ} {locks : LockTable}

namespace DeadlockSearch

def Visited (search : DeadlockSearch) (w : ℕ) : Prop := search.parents.lookup w ≠ none

/-- A bound on the expansions left: the waiters to expand and the queue entries not yet met. -/
def work (search : DeadlockSearch) (queue : LockWaitQueue) : ℕ :=
  search.pending.length +
    (queue.requests.filter fun p => search.parents.lookup p.transactionId = none).length

def meet (search : DeadlockSearch) (waiter blocker : ℕ) : DeadlockSearch :=
  ⟨(blocker, some waiter) :: search.parents, search.pending ++ [blocker]⟩

variable {search : DeadlockSearch} {waiter blocker : ℕ}

lemma lookup_meet : (search.meet waiter blocker).parents.lookup w = none ↔
      w ≠ blocker ∧ search.parents.lookup w = none := by
  unfold meet
  rw [lookup_cons]
  rcases h : w == blocker
  · simp [beq_eq_false_iff_ne.1 h]
  · simp [beq_iff_eq.1 h]

lemma visited_meet : (search.meet waiter blocker).Visited w ↔ w = blocker ∨ search.Visited w := by
  unfold Visited
  rw [Ne, lookup_meet, not_and_or, not_not]

lemma work_meet (hpending : (queue.pendingRequest blocker).isSome)
    (hnew : search.parents.lookup blocker = none) :
    (search.meet waiter blocker).work queue ≤ search.work queue := by
  obtain ⟨p, hp, rfl⟩ := exists_mem_of_pendingRequest hpending
  have hfilter : (queue.requests.filter fun q =>
        (search.meet waiter p.transactionId).parents.lookup q.transactionId = none) =
      (queue.requests.filter fun q => search.parents.lookup q.transactionId = none).filter
        fun q => q.transactionId ≠ p.transactionId := by
    rw [filter_filter]
    refine filter_congr fun q _ => ?_
    rw [← Bool.decide_and, decide_eq_decide]
    exact lookup_meet
  have hlt : ((queue.requests.filter fun q => search.parents.lookup q.transactionId = none).filter
        fun q => q.transactionId ≠ p.transactionId).length <
      (queue.requests.filter fun q => search.parents.lookup q.transactionId = none).length :=
    length_filter_lt_length_iff_exists.2 ⟨p, mem_filter.2 ⟨hp, decide_eq_true hnew⟩, by simp⟩
  unfold work
  rw [hfilter]
  simp only [meet, length_append, length_singleton]
  omega

end DeadlockSearch

open DeadlockSearch

variable {waiter : ℕ}

lemma visitBlockers_spec : ∀ {bs search search'},
    queue.visitBlockers t waiter bs search = .ok search' →
      (∀ b ∈ bs, b ≠ t ∧ ((queue.pendingRequest b).isSome → search'.Visited b)) ∧
      (∀ b, search.Visited b → search'.Visited b) ∧
      (∀ b, search'.Visited b → search.Visited b ∨ b ∈ search'.pending) ∧
      (∀ b, b ∈ search.pending → b ∈ search'.pending) ∧ search'.work queue ≤ search.work queue
  | [], search, search', h => by
    cases h
    exact ⟨by simp, fun _ h => h, fun _ h => .inl h, fun _ h => h, le_rfl⟩
  | b :: bs, search, search', h => by
    unfold visitBlockers at h
    split_ifs at h with hbt hnew
    · obtain ⟨hbs, hvis, hback, hsub, hwork⟩ := visitBlockers_spec h
      refine ⟨?_, fun c hc => hvis c (visited_meet.2 (.inr hc)), ?_, ?_,
        hwork.trans (work_meet hnew.1 hnew.2)⟩
      · intro c hc
        rcases mem_cons.1 hc with rfl | hc
        · exact ⟨hbt, fun _ => hvis _ (visited_meet.2 (.inl rfl))⟩
        · exact hbs c hc
      · intro c hc
        rcases hback c hc with hc | hc
        · rcases visited_meet.1 hc with rfl | hc
          · exact .inr (hsub _ (by simp))
          · exact .inl hc
        · exact .inr hc
      · exact fun c hc => hsub c (mem_append_left _ hc)
    · obtain ⟨hbs, hvis, hback, hsub, hwork⟩ := visitBlockers_spec h
      refine ⟨?_, hvis, hback, hsub, hwork⟩
      intro c hc
      rcases mem_cons.1 hc with rfl | hc
      · refine ⟨hbt, fun hpending => hvis c fun hnone => hnew ⟨hpending, hnone⟩⟩
      · exact hbs c hc

/-- The transaction blocks a waiter with the given queued request. -/
def Blocks (queue : LockWaitQueue) (locks : LockTable) (waiter : ℕ) (request : LockRequest)
    (blocker : ℕ) : Prop :=
  blocker ∈ locks.blockers waiter request ∨ blocker ∈ queue.blockers waiter request

/-- An expanded waiter waits only for others than the newcomer, and only for waiters met. -/
def Expanded (queue : LockWaitQueue) (t : ℕ) (locks : LockTable) (visited : ℕ → Prop)
    (waiter : ℕ) : Prop :=
  ∀ r, queue.pendingRequest waiter = some r → ∀ b, Blocks queue locks waiter r b →
    b ≠ t ∧ ((queue.pendingRequest b).isSome → visited b)

/-- The invariant of the breadth-first loop. -/
structure SearchInv (queue : LockWaitQueue) (t : ℕ) (locks : LockTable)
    (search : DeadlockSearch) : Prop where
  start : search.Visited t
  expanded : ∀ w, search.Visited w → w ∉ search.pending → Expanded queue t locks search.Visited w

lemma SearchInv.pop {search : DeadlockSearch} {pending : List ℕ}
    (h : SearchInv queue t locks search) (hp : search.pending = waiter :: pending)
    (hw : Expanded queue t locks search.Visited waiter) :
    SearchInv queue t locks { search with pending } where
  start := h.start
  expanded := by
    intro w hvis hnot
    by_cases hww : w = waiter
    · exact hww ▸ hw
    · exact h.expanded w hvis (by simp [hp, hww, hnot])

lemma SearchInv.visit {search search' : DeadlockSearch} {pending : List ℕ}
    (h : SearchInv queue t locks search) (hp : search.pending = waiter :: pending)
    (hr : queue.pendingRequest waiter = some request) (hv : queue.visitBlockers t waiter
      (btreeSet (locks.blockers waiter request ++ queue.blockers waiter request))
      { search with pending } = .ok search') : SearchInv queue t locks search' := by
  obtain ⟨hbs, hvis, hback, hsub, -⟩ := visitBlockers_spec hv
  refine ⟨hvis t h.start, fun w hw hnot => ?_⟩
  by_cases hww : w = waiter
  · intro r hwr b hb
    rw [hww, hr] at hwr
    cases hwr
    exact hbs b (mem_btreeSet.2 (mem_append.2 (hww ▸ hb)))
  · rcases hback w hw with hold | hin
    · have hnot' : w ∉ search.pending := by
        rw [hp]
        exact fun hmem => hnot (hsub w (mem_of_ne_of_mem hww hmem))
      intro r hwr b hb
      obtain ⟨hbt, hbv⟩ := h.expanded w hold hnot' r hwr b hb
      exact ⟨hbt, fun hpend => hvis b (hbv hpend)⟩
    · exact absurd hin hnot

lemma deadlockLoop_sound : ∀ {fuel search},
    SearchInv queue t locks search → queue.deadlockLoop t locks fuel search = some (.ok ()) →
      ∃ visited, visited t ∧ ∀ w, visited w → Expanded queue t locks visited w
  | 0, _, _, h => by cases h
  | fuel + 1, ⟨parents, []⟩, hinv, _ =>
    ⟨_, hinv.start, fun w hw => hinv.expanded w hw not_mem_nil⟩
  | fuel + 1, ⟨parents, waiter :: pending⟩, hinv, h => by
    unfold deadlockLoop at h
    dsimp only at h
    split at h
    · rename_i hnone
      refine deadlockLoop_sound (hinv.pop rfl fun r hr => ?_) h
      rw [hnone] at hr
      cases hr
    rename_i request hr
    split at h
    · cases h
    · rename_i hv
      exact deadlockLoop_sound (hinv.visit rfl hr hv) h

/-- Fuel for every expansion left and one round more is enough: the loop ends. -/
lemma deadlockLoop_ends : ∀ {fuel search}, search.work queue < fuel →
    ∃ result, ∀ extra, queue.deadlockLoop t locks (fuel + extra) search = some result
  | 0, _, hwork => by simp at hwork
  | fuel + 1, ⟨parents, []⟩, _ => ⟨.ok (), fun extra => by rw [Nat.add_right_comm]; rfl⟩
  | fuel + 1, ⟨parents, waiter :: pending⟩, hwork => by
    have hdrop : DeadlockSearch.work ⟨parents, pending⟩ queue < fuel := by
      simp only [DeadlockSearch.work, length_cons] at hwork ⊢
      omega
    simp only [Nat.add_right_comm fuel 1]
    unfold deadlockLoop
    dsimp only
    split
    · exact deadlockLoop_ends hdrop
    split
    · exact ⟨_, fun _ => rfl⟩
    · rename_i hv
      exact deadlockLoop_ends ((visitBlockers_spec hv).2.2.2.2.trans_lt hdrop)

lemma work_start_le : (⟨[(t, none)], [t]⟩ : DeadlockSearch).work queue ≤
    queue.requests.length + 1 := by
  simp only [DeadlockSearch.work, length_cons, length_nil]
  have hle := length_filter_le (fun p : HeldLock =>
    decide (lookup p.transactionId [(t, (none : Option ℕ))] = none)) queue.requests
  omega

/-- The search of `check_deadlock` ends: any more fuel gives the same result. -/
lemma deadlockLoop_start (extra : ℕ) :
    queue.deadlockLoop t locks (queue.requests.length + 2 + extra) ⟨[(t, none)], [t]⟩ =
      some (queue.checkDeadlock t locks) := by
  obtain ⟨result, hends⟩ : ∃ result, ∀ extra, queue.deadlockLoop t locks
      (queue.requests.length + 2 + extra) ⟨[(t, none)], [t]⟩ = some result :=
    deadlockLoop_ends (Nat.lt_succ_of_le work_start_le)
  rw [checkDeadlock, hends 0, hends extra]
  rfl

lemma checkDeadlock_closed (h : queue.checkDeadlock t locks = .ok ()) :
    ∃ visited, visited t ∧ ∀ w, visited w → Expanded queue t locks visited w := by
  have hinit : SearchInv queue t locks ⟨[(t, none)], [t]⟩ := by
    refine ⟨by simp [Visited], fun w hw hnot => ?_⟩
    simp only [Visited, lookup_cons] at hw
    split at hw
    · rename_i heq
      exact absurd (by simpa using heq) hnot
    · simp at hw
  exact deadlockLoop_sound hinit ((deadlockLoop_start 0).trans (congrArg some h))

lemma checkDeadlock_sound (hq : queue.Distinct) (h : queue.checkDeadlock t locks = .ok ()) :
    ¬ Relation.TransGen (LockManager.WaitsFor ⟨locks, queue⟩) t t := by
  obtain ⟨visited, hstart, hclosed⟩ := checkDeadlock_closed h
  refine not_transGen_of_closed hstart ?_ ?_
  · rintro a b ha ⟨r, hr, hb⟩ ⟨c, q, hq', -⟩
    refine ((hclosed a ha r ((pendingRequest_eq_some hq).2 hr) b hb).2 ?_)
    rw [(pendingRequest_eq_some hq).2 hq']
    rfl
  · rintro a ha ⟨r, hr, hb⟩
    exact (hclosed a ha r ((pendingRequest_eq_some hq).2 hr) t hb).1 rfl

end

section

variable {queue queue' : LockWaitQueue}

lemma eraseP_eq_filter : ∀ {l : List HeldLock}, (l.map HeldLock.transactionId).Nodup →
    (l.eraseP fun p => p.transactionId = t) = l.filter fun p => p.transactionId ≠ t
  | [], _ => rfl
  | p :: ps, h => by
    rw [map_cons, nodup_cons] at h
    by_cases hp : p.transactionId = t
    · have hnot : ∀ r ∈ ps, r.transactionId ≠ t := by
        rintro r hr rfl
        exact h.1 (hp ▸ mem_map_of_mem hr)
      rw [eraseP_cons_of_pos (by simpa using hp), filter_cons_of_neg (by simpa using hp)]
      exact (filter_eq_self.2 (by simpa using hnot)).symm
    · rw [eraseP_cons_of_neg (by simpa using hp), filter_cons_of_pos (by simpa using hp),
        eraseP_eq_filter h.2]

/-- Leaving out requests keeps those ahead of a remaining one ahead of it. -/
theorem mem_takeWhile_of_filter (hat : a ≠ t) : ∀ {l : List HeldLock},
    p ∈ (l.filter fun r => r.transactionId ≠ t).takeWhile (fun r => r.transactionId ≠ a) →
      p ∈ l.takeWhile (fun r => r.transactionId ≠ a)
  | [], h => by simp at h
  | x :: xs, h => by
    by_cases hxa : x.transactionId = a
    · rw [filter_cons_of_pos (by simp [hxa, hat]), takeWhile_cons_of_neg (by simp [hxa])] at h
      exact absurd h not_mem_nil
    rw [takeWhile_cons_of_pos (by simp [hxa])]
    by_cases hxt : x.transactionId = t
    · rw [filter_cons_of_neg (by simp [hxt])] at h
      exact mem_cons_of_mem _ (mem_takeWhile_of_filter hat h)
    rw [filter_cons_of_pos (by simp [hxt]), takeWhile_cons_of_pos (by simp [hxa]), mem_cons] at h
    rcases h with rfl | h
    · exact mem_cons_self
    · exact mem_cons_of_mem _ (mem_takeWhile_of_filter hat h)

lemma takeWhile_append_waiting {l : List HeldLock}
    (ha : ⟨a, r⟩ ∈ l) : (l ++ [(⟨t, q⟩ : HeldLock)]).takeWhile (fun p => p.transactionId ≠ a) =
      l.takeWhile (fun p => p.transactionId ≠ a) := by
  rw [takeWhile_append, if_neg]
  intro hlen
  have hall := ( takeWhile_prefix _).eq_of_length hlen
  rw [takeWhile_eq_self_iff] at hall
  simpa using hall _ ha

variable [TypeSizes]

lemma LockWaitQueue.distinct_enqueue (hq : queue.Distinct)
    (h : queue.enqueue t request = (queue', .ok ())) : queue'.Distinct := by
  obtain rfl | ⟨hne, hreq⟩ := enqueue_cases h
  · exact hq
  unfold Distinct
  rw [hreq, map_append, nodup_append]
  refine ⟨hq, by simp, ?_⟩
  simp only [mem_map, map_cons, map_nil, mem_singleton, forall_exists_index, and_imp]
  rintro _ p hp rfl _ rfl
  exact hne p hp

end

namespace LockManager

variable [TypeSizes] {m : LockManager}

variable {m' : LockManager}

/-- When a transaction leaves the queue, its locks may change in the same critical section. -/
theorem acyclic_of_change (hq : m.waiters.Distinct) (h : Acyclic m.WaitsFor)
    (hwaiters : m'.waiters.requests = (m.waiters.remove t).requests)
    (hlocks : ∀ u, u ≠ t → m'.locks.savepoint u = m.locks.savepoint u) : Acyclic m'.WaitsFor := by
  rw [requests_remove, eraseP_eq_filter hq] at hwaiters
  refine h.of_sink (v := t) ?_ ?_
  · rintro a b ⟨r, hr, hb⟩
    rw [hwaiters, mem_filter] at hr
    have hat : a ≠ t := by simpa using hr.2
    rw [LockTable.mem_blockers, LockWaitQueue.mem_blockers, hwaiters] at hb
    by_cases hbt : b = t
    · exact .inr hbt
    refine .inl ⟨r, hr.1, ?_⟩
    rw [LockTable.mem_blockers, LockWaitQueue.mem_blockers]
    rcases hb with hb | ⟨q, hq', hc⟩
    · rw [hlocks b hbt] at hb
      exact .inl hb
    · exact .inr ⟨q, mem_takeWhile_of_filter hat hq', hc⟩
  · rintro b ⟨r, hr, -⟩
    rw [hwaiters, mem_filter] at hr
    simp at hr

lemma acyclic_enqueue (hq : m.waiters.Distinct) (h : Acyclic m.WaitsFor)
    {waiters : LockWaitQueue} (henq : m.waiters.enqueue t request = (waiters, .ok ()))
    (hcheck : waiters.checkDeadlock t m.locks = .ok ()) :
    Acyclic (WaitsFor ⟨m.locks, waiters⟩) := by
  have hback := checkDeadlock_sound (distinct_enqueue hq henq) hcheck
  obtain rfl | ⟨-, hreq⟩ := enqueue_cases henq
  · exact h
  refine h.of_source (v := t) ?_ hback
  rintro a b hat ⟨r, hr, hb⟩
  have hr' : ⟨a, r⟩ ∈ m.waiters.requests := by
    simp only [hreq, mem_append, mem_singleton, HeldLock.mk.injEq] at hr
    exact hr.resolve_right fun h => hat h.1
  refine ⟨r, hr', hb.imp_right fun hb => ?_⟩
  rw [LockWaitQueue.mem_blockers, hreq, takeWhile_append_waiting hr'] at hb
  exact LockWaitQueue.mem_blockers.2 hb

/-- The queue holds each transaction once and the wait-for graph has no cycle. -/
structure DeadlockFree (m : LockManager) : Prop where
  distinct : m.waiters.Distinct
  acyclic : Acyclic m.WaitsFor

lemma DeadlockFree.of_change (h : m.DeadlockFree)
    (hwaiters : m'.waiters.requests = (m.waiters.remove t).requests)
    (hlocks : ∀ u, u ≠ t → m'.locks.savepoint u = m.locks.savepoint u) : m'.DeadlockFree where
  distinct := by
    unfold Distinct
    rw [hwaiters, requests_remove]
    exact h.distinct.sublist (eraseP_sublist.map _)
  acyclic := acyclic_of_change h.distinct h.acyclic hwaiters hlocks

lemma DeadlockFree.effect (h : m.DeadlockFree) (he : Effect t m m') : m'.DeadlockFree := by
  cases he with
  | idle => exact h
  | withdraw hwaiters => exact h.of_change hwaiters fun _ _ => rfl
  | grant _ hgrant => exact h.of_change rfl fun u hu => LockTable.savepoint_grant_of_ne hgrant hu
  | wait henq hcheck =>
    exact ⟨distinct_enqueue h.distinct henq, acyclic_enqueue h.distinct h.acyclic henq hcheck⟩

/-- A transaction holds a lock that a waiter waits for, or stands ahead of it in the queue. -/
def GoesFirst (m : LockManager) (t : ℕ) (r : LockRequest) (u : ℕ) : Prop :=
  u ∈ m.locks.blockers t r ∨
    u ∈ (m.waiters.requests.takeWhile (·.transactionId ≠ t)).map (·.transactionId)

omit [TypeSizes] in
/-- A request that nothing blocks overtakes no waiter it conflicts with. -/
lemma goesFirst_of_blockers_nil (hq : m.waiters.Distinct) (hw : ⟨t, r⟩ ∈ m.waiters.requests)
    (hne : t ≠ v) (hfree : m.blockers v q = []) (hc : requestsConflict q r = true) :
    m.GoesFirst t r v := by
  obtain ⟨l, l', hl⟩ := append_of_mem hw
  rw [Distinct, hl, map_append, nodup_append] at hq
  by_contra hcon
  have hl' : ∀ p ∈ l, p.transactionId ≠ v := by
    rintro p hp rfl
    refine hcon (.inr (mem_map_of_mem ?_))
    rw [hl, takeWhile_append_of_pos
      (by simpa using fun p hp => hq.2.2 _ (mem_map_of_mem hp) _ mem_cons_self)]
    exact mem_append_left _ hp
  have hb : t ∈ m.blockers v q := by
    refine mem_blockers.2 (.inr (LockWaitQueue.mem_blockers.2 ⟨r, ?_, requestsConflict_comm q r ▸ hc⟩))
    rw [hl, takeWhile_append_of_pos (by simpa using hl'), takeWhile_cons_of_pos (by simpa)]
    exact mem_append_right _ mem_cons_self
  rw [hfree] at hb
  cases hb

lemma GoesFirst.of_change (h : m'.GoesFirst t r u) (hq : m.waiters.Distinct)
    (hw : ⟨t, r⟩ ∈ m'.waiters.requests)
    (hwaiters : m'.waiters.requests = (m.waiters.remove v).requests)
    (hlocks : ∀ u, u ≠ v → m'.locks.savepoint u = m.locks.savepoint u)
    (hv : t ≠ v → ∀ q ∈ m'.locks.savepoint v, requestsConflict q r = true → m.GoesFirst t r v) :
    m.GoesFirst t r u := by
  rw [requests_remove, eraseP_eq_filter hq] at hwaiters
  have hne : t ≠ v := by
    rw [hwaiters, mem_filter] at hw
    exact of_decide_eq_true hw.2
  rcases h with h | h
  · obtain ⟨hu, q, hq, hc⟩ := LockTable.mem_blockers.1 h
    by_cases huv : u = v
    · exact huv ▸ hv hne q (huv ▸ hq) hc
    · rw [hlocks u huv] at hq
      exact .inl (LockTable.mem_blockers.2 ⟨hu, q, hq, hc⟩)
  · rw [hwaiters] at h
    obtain ⟨p, hp, rfl⟩ := mem_map.1 h
    exact .inr (mem_map_of_mem (mem_takeWhile_of_filter hne hp))

end LockManager

namespace LockSystem

variable [TypeSizes] {s : LockSystem}

omit [TypeSizes] in
lemma deadlockFree_init (tableLimits queueLimits : LockTableLimits) :
    (init tableLimits queueLimits).manager.DeadlockFree where
  distinct := nodup_nil
  acyclic := by
    intro t ht
    obtain ⟨_, ⟨r, hr, -⟩, -⟩ := Relation.TransGen.head'_iff.1 ht
    exact absurd hr not_mem_nil

lemma deadlockFree_change (h : s.manager.DeadlockFree)
    {savepoints : ℕ → List (List LockRequest)} (hc : Change s m savepoints) : m.DeadlockFree := by
  cases hc with
  | turn he => exact h.effect he
  | release t =>
    exact h.of_change rfl fun u hu => LockTable.savepoint_releaseTransaction_of_ne hu
  | restore t newer hdrop =>
    refine h.of_change rfl fun u hu => ?_
    rw [LockManager.restore, LockTable.savepoint_restoreTransaction, if_neg hu]
  | savepoint t => exact h
  | forget t => exact h

lemma deadlockFree_run (h : s.manager.DeadlockFree) (events : List Event) :
    (s.run events).manager.DeadlockFree := by
  induction events generalizing s with
  | nil => exact h
  | cons event events ih => exact ih (deadlockFree_change h (step_change s event))

/-- In every reachable state the wait-for graph has no cycle. -/
theorem waitsFor_acyclic (tableLimits queueLimits : LockTableLimits) (events : List Event) :
    Acyclic ((init tableLimits queueLimits).run events).manager.WaitsFor :=
  (deadlockFree_run (deadlockFree_init tableLimits queueLimits) events).acyclic

lemma mem_savepoint_releases {bs : List ℕ} {m : LockManager}
    (h : ∀ p ∈ m.waiters.requests, p.transactionId ∉ bs) :
    (bs.foldl LockManager.release m).waiters.requests = m.waiters.requests ∧
      ∀ u, ∀ q ∈ (bs.foldl LockManager.release m).locks.savepoint u,
        u ∉ bs ∧ q ∈ m.locks.savepoint u := by
  induction bs generalizing m with
  | nil => exact ⟨rfl, fun u q hq => ⟨not_mem_nil, hq⟩⟩
  | cons b bs ih =>
    have hsame : (m.release b).waiters.requests = m.waiters.requests := by
      rw [LockManager.release, requests_remove, eraseP_of_forall_not]
      intro p hp hpb
      exact h p hp (of_decide_eq_true hpb ▸ mem_cons_self)
    obtain ⟨hwait, hlocks⟩ := ih (m := m.release b)
      (hsame ▸ fun p hp hpb => h p hp (mem_cons_of_mem _ hpb))
    refine ⟨hwait.trans hsame, fun u q hq => ?_⟩
    obtain ⟨hu, hq⟩ := hlocks u q hq
    by_cases hub : u = b
    · subst hub
      rw [LockManager.release, LockTable.savepoint_releaseTransaction_self] at hq
      cases hq
    · rw [LockManager.release, LockTable.savepoint_releaseTransaction_of_ne hub] at hq
      exact ⟨not_mem_cons_of_ne_of_not_mem hub hu, hq⟩

/-- As long as transactions wait, one of them waits only for others that do not, and nothing blocks
it any more when these have ended. -/
theorem exists_grantable_waiter (tableLimits queueLimits : LockTableLimits) (events : List Event) :
    let m := ((init tableLimits queueLimits).run events).manager
    m.waiters.requests = [] ∨ ∃ waiter ∈ m.waiters.requests,
      let blockers := m.blockers waiter.transactionId waiter.request
      (∀ other ∈ m.waiters.requests, other.transactionId ∉ blockers) ∧
        (blockers.foldl LockManager.release m).blockers waiter.transactionId waiter.request = [] := by
  intro m
  have hfree : m.DeadlockFree := deadlockFree_run (deadlockFree_init tableLimits queueLimits) events
  rcases eq_or_ne m.waiters.requests [] with hnil | hne
  · exact .inl hnil
  obtain ⟨_, hw, hsink⟩ := hfree.acyclic.exists_sink (mt map_eq_nil_iff.1 hne)
  obtain ⟨waiter, hwaiter, rfl⟩ := mem_map.1 hw
  have hout : ∀ other ∈ m.waiters.requests,
      other.transactionId ∉ m.blockers waiter.transactionId waiter.request :=
    fun other hother hb => hsink _ (mem_map_of_mem hother)
      ⟨waiter.request, hwaiter, LockManager.mem_blockers.1 hb⟩
  refine .inr ⟨waiter, hwaiter, hout, eq_nil_iff_forall_not_mem.2 fun u hu => ?_⟩
  obtain ⟨hwait, hlocks⟩ := mem_savepoint_releases hout
  rcases LockManager.mem_blockers.1 hu with hu | hu
  · obtain ⟨hne, q, hq, hconflict⟩ := LockTable.mem_blockers.1 hu
    obtain ⟨hu, hq⟩ := hlocks u q hq
    exact hu (LockManager.mem_blockers.2 (.inl (LockTable.mem_blockers.2 ⟨hne, q, hq, hconflict⟩)))
  · obtain ⟨q, hq, hconflict⟩ := LockWaitQueue.mem_blockers.1 hu
    rw [hwait] at hq
    exact hout _ ((takeWhile_sublist _).subset hq)
      (LockManager.mem_blockers.2 (.inr (LockWaitQueue.mem_blockers.2 ⟨q, hq, hconflict⟩)))

lemma goesFirst_change (hs : s.Sound) (hd : s.manager.DeadlockFree) (hc : Change s m sp)
    (hw : ⟨t, r⟩ ∈ s.manager.waiters.requests) (hw' : ⟨t, r⟩ ∈ m.waiters.requests)
    (h : m.GoesFirst t r u) : s.manager.GoesFirst t r u := by
  have held {v q} (hne : t ≠ v) (hq : q ∈ s.manager.locks.savepoint v)
      (hc : requestsConflict q r = true) : s.manager.GoesFirst t r v :=
    .inl (LockTable.mem_blockers.2 ⟨hne.symm, q, hq, hc⟩)
  cases hc with
  | turn he =>
    cases he with
    | idle => exact h
    | withdraw hwaiters =>
      exact h.of_change hd.distinct hw' hwaiters (fun _ _ => rfl) fun hne _ => held hne
    | grant hfree hgrant =>
      refine h.of_change hd.distinct hw' rfl (fun _ => LockTable.savepoint_grant_of_ne hgrant) ?_
      intro hne q hq hc
      rcases LockTable.mem_savepoint_grant hgrant hq with hq | rfl
      · exact held hne hq hc
      · exact LockManager.goesFirst_of_blockers_nil hd.distinct hw hne hfree hc
    | wait henq =>
      obtain rfl | ⟨-, hreq⟩ := enqueue_cases henq
      · exact h
      · refine h.imp_right fun h => ?_
        rwa [hreq, takeWhile_append_waiting hw] at h
  | release v =>
    refine h.of_change hd.distinct hw' rfl (fun _ => LockTable.savepoint_releaseTransaction_of_ne) ?_
    intro _ q hq
    rw [LockManager.release, LockTable.savepoint_releaseTransaction_self] at hq
    cases hq
  | restore v newer hdrop =>
    refine h.of_change hd.distinct hw' rfl (fun u hu => ?_) fun hne q hq hc => ?_
    · rw [LockManager.restore, LockTable.savepoint_restoreTransaction, if_neg hu]
    · rw [LockManager.restore, LockTable.savepoint_restoreTransaction, if_pos rfl] at hq
      -- the locks held cover the savepoint, so they conflict where it does
      obtain ⟨p, hp, hcov⟩ := (pairwise_cons.1 (hs.covered v)).1 _
        ((drop_sublist newer _).subset (hdrop ▸ mem_cons_self)) q hq
      exact held hne hp (requestsConflict_of_covers hcov hc)
  | savepoint | forget => exact h

lemma goesFirst_run (hs : s.Sound) (hd : s.manager.DeadlockFree)
    (hw : ∀ i, ⟨t, r⟩ ∈ (s.run (events.take i)).manager.waiters.requests)
    (h : (s.run events).manager.GoesFirst t r u) : s.manager.GoesFirst t r u := by
  induction events generalizing s with
  | nil => exact h
  | cons event events ih =>
    have hc := step_change s event
    exact goesFirst_change hs hd hc (hw 0) (hw 1)
      (ih (hs.step event) (deadlockFree_change hd hc) (fun i => hw (i + 1)) h)

/-- No request is overtaken: as long as it waits, whoever blocks it held a lock it conflicts with
or stood ahead of it from the start. -/
theorem no_overtaking (tableLimits queueLimits : LockTableLimits) (before after : List Event)
    (t : ℕ) (r : LockRequest) :
    let s := (init tableLimits queueLimits).run before
    (∃ i, ⟨t, r⟩ ∉ (s.run (after.take i)).manager.waiters.requests) ∨
      ∀ u ∈ (s.run after).manager.blockers t r, s.manager.GoesFirst t r u := by
  intro s
  refine or_iff_not_imp_left.2 fun hw u hu => ?_
  refine goesFirst_run (.run (sound_init tableLimits queueLimits) before)
    (deadlockFree_run (deadlockFree_init tableLimits queueLimits) before)
    (fun i => not_not.1 (not_exists.1 hw i)) ?_
  refine (LockManager.mem_blockers.1 hu).imp_right fun hu => ?_
  obtain ⟨q, hq, -⟩ := LockWaitQueue.mem_blockers.1 hu
  exact mem_map_of_mem hq

end LockSystem

end HawDB
