import HawDB.Proofs.WaitFor

/-!
# The deadlock search finds exactly the cycles through a waiter

The parents a search records are edges of the wait-for graph, and each leads to a waiter that was
met before (`Linked`). Where the search meets its transaction again, they spell out a cycle.
-/

namespace HawDB

open List LockWaitQueue Option

/-- The wait-for graph of a queue and a lock table: from a waiter to what blocks the request it
waits with, in the table or ahead of it in the queue. -/
def LockWaitQueue.Waits (queue : LockWaitQueue) (locks : LockTable) (waiter blocker : ℕ) : Prop :=
  ∃ request, queue.pendingRequest waiter = some request ∧
    (blocker ∈ locks.blockers waiter request ∨ blocker ∈ queue.blockers waiter request)

/-- A walk along the edges of a graph. -/
def IsWalk (r : ℕ → ℕ → Prop) (first last : ℕ) (path : List ℕ) : Prop :=
  path.head? = some first ∧ path.getLast? = some last ∧ path.IsChain r

section

variable {r : ℕ → ℕ → Prop} {t : ℕ} {parents : List (ℕ × Option ℕ)}

/-- The parents a search from `t` has recorded, the newest first. -/
inductive Linked (r : ℕ → ℕ → Prop) (t : ℕ) : List (ℕ × Option ℕ) → Prop
  | start : Linked r t [(t, none)]
  | meet {parents : List (ℕ × Option ℕ)} {waiter blocker : ℕ} (h : Linked r t parents)
      (hwaiter : parents.lookup waiter ≠ none) (hnew : parents.lookup blocker = none)
      (hedge : r waiter blocker) : Linked r t ((blocker, some waiter) :: parents)

lemma lookup_cons_of_ne (h : w ≠ b) : ((b, p) :: parents).lookup w = parents.lookup w := by
  rw [lookup_cons, beq_eq_false_iff_ne.2 h]

lemma lookup_cons_self : ((b, p) :: parents).lookup b = some p := by
  rw [lookup_cons, beq_self_eq_true]

lemma Linked.lookup_parent (h : Linked r t parents)
    (hw : parents.lookup w = some (some p)) : parents.lookup p ≠ none := by
  induction h with
  | start =>
    rw [lookup_cons] at hw
    split at hw <;> simp at hw
  | @meet parents waiter blocker _ hwaiter hnew _ ih =>
    have hkeep : ∀ {v}, parents.lookup v ≠ none →
        ((blocker, some waiter) :: parents).lookup v ≠ none := by
      intro v hv
      have hne : v ≠ blocker := fun h => hv (h ▸ hnew)
      rwa [lookup_cons_of_ne hne]
    by_cases hwb : w = blocker
    · subst hwb
      rw [lookup_cons_self] at hw
      cases some.inj hw
      exact hkeep hwaiter
    · rw [lookup_cons_of_ne hwb] at hw
      exact hkeep (ih hw)

lemma Linked.parentPath_cons (h : Linked r t parents)
    (hnew : parents.lookup b = none) : ∀ {fuel w path}, parents.lookup w ≠ none →
      parentPath ((b, p) :: parents) fuel w path = parentPath parents fuel w path
  | 0, _, _, _ => rfl
  | fuel + 1, w, path, hw => by
    have hne : w ≠ b := fun h => hw (h ▸ hnew)
    unfold parentPath
    rw [lookup_cons_of_ne hne]
    split
    · rename_i parent hparent
      exact h.parentPath_cons hnew (h.lookup_parent hparent)
    · rfl

lemma isWalk_cons (hedge : r a first)
    (h : IsWalk r first last path) : IsWalk r a last (a :: path) := by
  obtain ⟨hfirst, hlast, hchain⟩ := h
  cases path with
  | nil => cases hfirst
  | cons b rest =>
    obtain rfl : b = first := some.inj hfirst
    exact ⟨rfl, hlast, .cons_cons hedge hchain⟩

/-- The parents lead back to the transaction the search started with. -/
theorem Linked.parentPath_isWalk (h : Linked r t parents) : ∀ {fuel w last path},
    parents.length ≤ fuel → parents.lookup w ≠ none → IsWalk r w last path →
      IsWalk r t last (parentPath parents fuel w path) := by
  induction h with
  | start =>
    intro fuel w last path hfuel hw hpath
    have hwt : w = t := by
      by_contra hne
      exact hw (by rw [lookup_cons_of_ne hne]; rfl)
    subst hwt
    obtain ⟨fuel, rfl⟩ := Nat.exists_eq_add_of_le' hfuel
    show IsWalk r w last (parentPath [(w, none)] (fuel + 1) w path)
    unfold parentPath
    rw [lookup_cons_self]
    exact hpath
  | @meet parents waiter blocker h hwaiter hnew hedge ih =>
    intro fuel w last path hfuel hw hpath
    by_cases hwb : w = blocker
    · subst hwb
      obtain ⟨fuel, rfl⟩ := Nat.exists_eq_add_of_le' hfuel
      show IsWalk r t last (parentPath _ (fuel + parents.length + 1) w path)
      unfold parentPath
      rw [lookup_cons_self]
      dsimp only
      rw [h.parentPath_cons hnew hwaiter]
      exact ih (Nat.le_add_left _ _) hwaiter (isWalk_cons hedge hpath)
    · rw [lookup_cons_of_ne hwb] at hw
      rw [h.parentPath_cons hnew hw]
      exact ih ((Nat.le_succ _).trans hfuel) hw hpath

lemma isWalk_append (h : IsWalk r first last path)
    (hedge : r last b) : IsWalk r first b (path ++ [b]) := by
  obtain ⟨hfirst, hlast, hchain⟩ := h
  refine ⟨?_, by simp, ?_⟩
  · rw [head?_append, hfirst]
    rfl
  · rw [isChain_append]
    refine ⟨hchain, .singleton b, fun x hx y hy => ?_⟩
    obtain rfl : last = x := some.inj (hlast.symm.trans hx)
    obtain rfl : b = y := some.inj hy
    exact hedge

lemma transGen_of_isWalk : ∀ {path first last}, IsWalk r first last path →
    2 ≤ path.length → Relation.TransGen r first last
  | [], _, _, _, hlen => by simp at hlen
  | [_], _, _, _, hlen => by simp at hlen
  | [a, b], first, last, ⟨hfirst, hlast, hchain⟩, _ => by
    obtain rfl : a = first := some.inj hfirst
    obtain rfl : b = last := some.inj hlast
    exact .single (isChain_pair.1 hchain)
  | a :: b :: c :: rest, first, last, ⟨hfirst, hlast, hchain⟩, _ => by
    obtain rfl : a = first := some.inj hfirst
    rw [isChain_cons_cons] at hchain
    have hwalk : IsWalk r b last (b :: c :: rest) := ⟨rfl, hlast, hchain.2⟩
    exact .head hchain.1 (transGen_of_isWalk hwalk (by simp))

end

section

variable {queue : LockWaitQueue} {locks : LockTable} {t : ℕ}

/-- What the search keeps: linked parents, and only waiters it has met to expand. -/
structure Tracked (queue : LockWaitQueue) (locks : LockTable) (t : ℕ) (search : DeadlockSearch) :
    Prop where
  linked : Linked (queue.Waits locks) t search.parents
  pending : ∀ w ∈ search.pending, search.Visited w

/-- The error names a cycle through the transaction. -/
def ReportsCycle (queue : LockWaitQueue) (locks : LockTable) (t : ℕ) (e : HawDBError) : Prop :=
  ∃ cycle, e = deadlockError t cycle ∧ 2 ≤ cycle.length ∧ IsWalk (queue.Waits locks) t t cycle

open DeadlockSearch

lemma visitBlockers_tracked : ∀ {bs search},
    Tracked queue locks t search → search.Visited waiter →
      (∀ b ∈ bs, queue.Waits locks waiter b) →
      match queue.visitBlockers t waiter bs search with
      | .ok search' => Tracked queue locks t search'
      | .error e => ReportsCycle queue locks t e
  | [], _, h, _, _ => h
  | b :: bs, search, h, hwaiter, hbs => by
    have hb := hbs b mem_cons_self
    have hrest : ∀ c ∈ bs, queue.Waits locks waiter c := fun c hc => hbs c (mem_cons_of_mem _ hc)
    unfold visitBlockers
    split_ifs with hbt hnew
    · subst hbt
      have hwalk := isWalk_append (h.linked.parentPath_isWalk le_rfl hwaiter
        (⟨rfl, rfl, .singleton waiter⟩ : IsWalk _ waiter waiter [waiter])) hb
      refine ⟨_, rfl, ?_, hwalk⟩
      obtain ⟨hfirst, -, -⟩ := h.linked.parentPath_isWalk le_rfl hwaiter
        (⟨rfl, rfl, .singleton waiter⟩ : IsWalk (queue.Waits locks) waiter waiter [waiter])
      rcases hpath : parentPath search.parents search.parents.length waiter [waiter]
      · rw [hpath] at hfirst
        cases hfirst
      · simp
    · have hmeet : Tracked queue locks t (search.meet waiter b) := by
        refine ⟨.meet h.linked hwaiter hnew.2 hb, fun w hw => ?_⟩
        rcases mem_append.1 hw with hw | hw
        · exact visited_meet.2 (.inr (h.pending w hw))
        · exact visited_meet.2 (.inl (mem_singleton.1 hw))
      exact visitBlockers_tracked hmeet (visited_meet.2 (.inr hwaiter)) hrest
    · exact visitBlockers_tracked h hwaiter hrest

lemma deadlockLoop_error : ∀ {fuel search e},
    Tracked queue locks t search → queue.deadlockLoop t locks fuel search = some (.error e) →
      ReportsCycle queue locks t e
  | 0, _, _, _, h => by cases h
  | fuel + 1, ⟨parents, []⟩, _, _, h => by cases h
  | fuel + 1, ⟨parents, waiter :: pending⟩, e, hinv, h => by
    have hpop : Tracked queue locks t ⟨parents, pending⟩ :=
      ⟨hinv.linked, fun w hw => hinv.pending w (mem_cons_of_mem _ hw)⟩
    unfold deadlockLoop at h
    dsimp only at h
    split at h
    · exact deadlockLoop_error hpop h
    rename_i request hr
    have hedges : ∀ b ∈ btreeSet (locks.blockers waiter request ++ queue.blockers waiter request),
        queue.Waits locks waiter b :=
      fun b hb => ⟨request, hr, mem_append.1 (mem_btreeSet.1 hb)⟩
    have hvisit := visitBlockers_tracked hpop (hinv.pending waiter mem_cons_self) hedges
    rcases hv : queue.visitBlockers t waiter
        (btreeSet (locks.blockers waiter request ++ queue.blockers waiter request))
        ⟨parents, pending⟩ with e' | search' <;> rw [hv] at h hvisit
    · obtain rfl := Except.error.inj (some.inj h)
      exact hvisit
    · exact deadlockLoop_error hvisit h

lemma tracked_start : Tracked queue locks t ⟨[(t, none)], [t]⟩ := by
  refine ⟨.start, fun w hw => ?_⟩
  obtain rfl := mem_singleton.1 hw
  simp [Visited]

lemma not_cycle_of_checkDeadlock (h : queue.checkDeadlock t locks = .ok ()) :
    ¬ Relation.TransGen (queue.Waits locks) t t := by
  obtain ⟨visited, hstart, hclosed⟩ := checkDeadlock_closed h
  refine not_transGen_of_closed hstart ?_ ?_
  · rintro a b ha ⟨r, hr, hb⟩ ⟨c, q, hq, -⟩
    exact (hclosed a ha r hr b hb).2 (isSome_of_eq_some hq)
  · rintro a ha ⟨r, hr, hb⟩
    exact (hclosed a ha r hr t hb).1 rfl

end

/-- The check fails exactly when the transaction is on a cycle of the wait-for graph, what it
reports is such a cycle, and the loop ends: the transaction and every waiter are expanded at most
once, and within one round more it has returned, with whatever fuel is left. -/
theorem checkDeadlock_error_iff_cycle (queue : LockWaitQueue) (locks : LockTable) (t : ℕ) :
    ((∃ e, queue.checkDeadlock t locks = .error e) ↔ Relation.TransGen (queue.Waits locks) t t) ∧
    (∀ e, queue.checkDeadlock t locks = .error e →
      ∃ cycle, e = deadlockError t cycle ∧ 2 ≤ cycle.length ∧
        IsWalk (queue.Waits locks) t t cycle) ∧
    ∀ extra, queue.deadlockLoop t locks (queue.requests.length + 2 + extra)
      { parents := [(t, none)], pending := [t] } = some (queue.checkDeadlock t locks) := by
  have hcycle : ∀ e, queue.checkDeadlock t locks = .error e → ReportsCycle queue locks t e :=
    fun e h => deadlockLoop_error tracked_start ((deadlockLoop_start 0).trans (congrArg some h))
  refine ⟨⟨?_, fun h => ?_⟩, hcycle, fun extra => deadlockLoop_start extra⟩
  · rintro ⟨e, he⟩
    obtain ⟨cycle, -, hlen, hwalk⟩ := hcycle e he
    exact transGen_of_isWalk hwalk hlen
  · cases hcheck : queue.checkDeadlock t locks with
    | error e => exact ⟨e, rfl⟩
    | ok _ => exact absurd h (not_cycle_of_checkDeadlock hcheck)

end HawDB
