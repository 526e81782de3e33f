import HawDB.VersionReference
import HawDB.Proofs.VersionIndex

/-!
# The version index against the reference

A stamp of the index is the latest epoch of its key (`Agrees.sound`). A key whose latest epoch is
above the history floor has its stamp (`Agrees.complete`), unless it is a read summary behind a read
barrier: those have none (`Agrees.dropped`).
-/

namespace HawDB

open VersionReference VersionIndex

/-- A search that finds no more than another one finds the same, if it does not miss what the other
finds first. -/
lemma findSome?_eq_of_first {α β : Type*} {f g : α → Option β} : ∀ {l : List α},
    (∀ x b, f x = some b → g x = some b) →
      (∀ x b, l.findSome? g = some b → g x = some b → f x = some b) →
      l.findSome? f = l.findSome? g
  | [], _, _ => rfl
  | x :: l, hsub, hfirst => by
    rw [List.findSome?_cons] at hfirst ⊢
    rw [List.findSome?_cons]
    rcases hg : g x with _ | b
    · rw [hg] at hfirst
      rcases hf : f x with _ | b
      · exact findSome?_eq_of_first hsub hfirst
      · cases (hsub x b hf).symm.trans hg
    · rw [hg] at hfirst
      rw [hfirst x b rfl hg]

variable {V : Type*} [Ord V] [Std.TransOrd V]

namespace VersionReference

lemma get_commit (epoch : ℕ) (key : VersionKey V) :
    ∀ (keys : List (VersionKey V)) (reference : VersionReference V),
      (reference.commit keys epoch).get key =
        if keys.any (fun k => compare key k = .eq) then some epoch else reference.get key
  | [], _ => rfl
  | k :: keys, reference => by
    rw [commit, List.foldl_cons]
    have ih := get_commit epoch key keys (reference.insert k epoch)
    rw [commit] at ih
    rw [ih, OrdMap.get_insert, List.any_cons]
    by_cases hk : compare key k = .eq
    · simp [hk]
    · simp [hk]

end VersionReference

lemma VersionWriteSet.any_keys (writes : VersionWriteSet V) (key : VersionKey V) :
    (writes.keys.any fun k => compare key k = .eq) = (writes.writes.get key).isSome := by
  unfold OrdMap.get VersionWriteSet.keys
  rw [Option.isSome_map, Bool.eq_iff_iff, findEntry_isSome_iff]
  simp only [List.any_map, List.any_eq_true, Function.comp_apply, decide_eq_true_eq]
  exact ⟨fun ⟨e, he, hk⟩ => ⟨e, he, compare_swap_eq.1 hk⟩,
    fun ⟨e, he, hk⟩ => ⟨e, he, compare_swap_eq.1 hk⟩⟩

/-- Stamps say what the reference says, as far as they have to above a floor and for the keys that
are behind a read barrier. -/
structure Agrees (stamp : VersionKey V → Option VersionStamp) (floor : ℕ)
    (reference : VersionReference V) (behind : VersionKey V → Bool) : Prop where
  sound : ∀ key s, stamp key = some s → reference.get key = some s.commitEpoch
  complete : ∀ key epoch, (key.isReadSummaryKey = true → behind key = false) →
    reference.get key = some epoch → floor < epoch → ∃ s, stamp key = some s
  dropped : ∀ key, key.isReadSummaryKey = true → behind key = true → stamp key = none

namespace Agrees

variable {stamp : VersionKey V → Option VersionStamp} {floor : ℕ} {reference : VersionReference V}
  {behind : VersionKey V → Bool}

lemma insert (h : Agrees stamp floor reference behind) (k : VersionKey V) (s : VersionStamp) :
    Agrees (fun key => if compare key k = .eq then some s else stamp key) floor
      (reference.insert k s.commitEpoch)
      (fun key => if compare key k = .eq then false else behind key) where
  sound key s' hs := by
    rw [OrdMap.get_insert]
    split_ifs at hs ⊢
    · cases hs
      rfl
    · exact h.sound key s' hs
  complete key epoch hkey hget hlt := by
    rw [OrdMap.get_insert] at hget
    split_ifs at hkey hget ⊢
    · exact ⟨s, rfl⟩
    · exact h.complete key epoch hkey hget hlt
  dropped key hkey hbehind := by
    split_ifs at hbehind ⊢
    exact h.dropped key hkey hbehind

omit [Std.TransOrd V] in
lemma collapse (h : Agrees stamp floor reference behind) :
    Agrees (fun key => if key.isReadSummaryKey then none else stamp key) floor reference
      (fun _ => true) where
  sound key s hs := by
    split_ifs at hs
    exact h.sound key s hs
  complete key epoch hkey hget hlt := by
    have hsummary : key.isReadSummaryKey = false :=
      Bool.eq_false_iff.2 fun htrue => Bool.false_ne_true (hkey htrue).symm
    rw [hsummary]
    refine h.complete key epoch (fun htrue => ?_) hget hlt
    rw [hsummary] at htrue
    cases htrue
  dropped key hkey _ := if_pos hkey

lemma commit (h : Agrees stamp floor reference behind) (writes : VersionWriteSet V) (epoch : ℕ) :
    Agrees (fun key => writes.stampOver epoch key (stamp key)) floor
      (reference.commit writes.keys epoch)
      (fun key => if writes.keys.any fun k => compare key k = .eq then false else behind key) where
  sound key s hs := by
    rw [get_commit, writes.any_keys]
    unfold VersionWriteSet.stampOver at hs
    rcases hget : writes.writes.get key with _ | w
    · rw [hget] at hs
      exact h.sound key s hs
    · rw [hget] at hs
      cases hs
      rfl
  complete key e hkey hget hlt := by
    unfold VersionWriteSet.stampOver
    rw [get_commit, writes.any_keys] at hget
    rw [writes.any_keys] at hkey
    rcases hw : writes.writes.get key with _ | w
    · rw [hw] at hget hkey
      exact h.complete key e hkey hget hlt
    · exact ⟨⟨epoch, w.disposition⟩, rfl⟩
  dropped key hkey hbehind := by
    unfold VersionWriteSet.stampOver
    rw [writes.any_keys] at hbehind
    rcases hw : writes.writes.get key with _ | w <;> rw [hw] at hbehind
    · exact h.dropped key hkey hbehind
    · cases hbehind

omit [Std.TransOrd V] in
lemma reclaim (h : Agrees stamp floor reference behind) {stamp' : VersionKey V → Option VersionStamp}
    (hstamp : ∀ key, stamp' key = stamp key ∨
      stamp' key = none ∧ ∃ s, stamp key = some s ∧ s.commitEpoch < oldestReaderEpoch) :
    Agrees stamp' (max floor (oldestReaderEpoch - 1)) reference behind where
  sound key s hs := by
    rcases hstamp key with hsame | ⟨hnone, -⟩
    · exact h.sound key s (hsame ▸ hs)
    · rw [hnone] at hs
      cases hs
  complete key epoch hkey hget hlt := by
    rw [max_lt_iff] at hlt
    obtain ⟨s, hs⟩ := h.complete key epoch hkey hget hlt.1
    rcases hstamp key with hsame | ⟨-, s', hs', hold⟩
    · exact ⟨s, hsame.trans hs⟩
    -- a stamp that is dropped is at or below the new floor
    have hepoch := h.sound key s' hs'
    rw [hget, Option.some.injEq] at hepoch
    omega
  dropped key hkey hbehind := by
    have hnone := h.dropped key hkey hbehind
    rcases hstamp key with hsame | ⟨hnone', -⟩
    · exact hsame.trans hnone
    · exact hnone'

omit [Std.TransOrd V] in
/-- Where the index reports a key, it is in conflict in the reference. -/
lemma reference_eq (h : Agrees stamp floor reference behind)
    {report : ℕ → Option (VersionConflict V)}
    (hs : ((stamp key).bind fun s => report s.commitEpoch) = some conflict) :
    (reference.get key).bind report = some conflict := by
  obtain ⟨s, hstamp, hreport⟩ := Option.bind_eq_some_iff.1 hs
  rwa [h.sound key s hstamp]

omit [Std.TransOrd V] in
/-- A conflict in the reference is one in the index exactly when its key is not dropped. -/
lemma stamp_eq_iff (h : Agrees stamp floor reference behind)
    {report : ℕ → Option (VersionConflict V)}
    (hreport : ∀ epoch, report epoch = some conflict → floor < epoch ∧ conflict.key = key)
    (hget : (reference.get key).bind report = some conflict) :
    ((stamp key).bind fun s => report s.commitEpoch) = some conflict ↔
      (conflict.key.isReadSummaryKey = true → behind conflict.key = false) := by
  obtain ⟨epoch, hepoch, hsome⟩ := Option.bind_eq_some_iff.1 hget
  obtain ⟨hlt, rfl⟩ := hreport epoch hsome
  constructor
  · intro hs hkey
    refine Bool.eq_false_iff.2 fun hbehind => ?_
    rw [h.dropped _ hkey hbehind] at hs
    cases hs
  · intro hkey
    obtain ⟨s, hs⟩ := h.complete _ epoch hkey hepoch hlt
    have hsound := h.sound _ s hs
    rw [hepoch, Option.some.injEq] at hsound
    rwa [hs, Option.bind_some, ← hsound]

end Agrees

namespace VersionPair

variable [CowPageWeight V] [TypeSizes] {s : VersionPair V}

/-- The index is well formed and says what the reference says. -/
structure Ok (s : VersionPair V) : Prop where
  wf : s.index.WF
  agrees : Agrees s.index.stamp s.index.historyFloor s.reference s.behindBarrier

omit [Std.TransOrd V] in
lemma Ok.same (h : s.Ok) {index : VersionIndex V} (hs : s.index.Same index) :
    Ok { s with index } where
  wf := hs.wf
  agrees := by
    rw [hs.floor, funext hs.stamp]
    exact h.agrees

lemma Ok.install (h : s.Ok) {staged : VersionIndex V × Option (VersionIndex V)} {install : Bool}
    {keys : List (VersionKey V)} (hself : s.index.Same staged.1)
    (hstaged : ∀ index, staged.2 = some index → (s.commit index keys epoch barrier).Ok) :
    (s.install staged install keys epoch barrier).Ok := by
  rcases staged with ⟨index, _ | staged⟩
  · cases install <;> exact h.same hself
  · cases install
    · exact h.same hself
    · exact hstaged staged rfl

lemma Ok.commits (h : s.Ok) {index : VersionIndex V} {writes : VersionWriteSet V}
    (hc : s.index.Commits s.index.stamp writes epoch index) :
    (s.commit index writes.keys epoch false).Ok where
  wf := hc.wf
  agrees := by
    dsimp only [VersionPair.commit]
    rw [hc.floor, funext hc.stamp]
    simp only [Bool.false_or]
    exact h.agrees.commit writes epoch

omit [Std.TransOrd V] in
lemma Ok.reclaims (h : s.Ok) {index : VersionIndex V}
    (hr : s.index.Reclaims oldestReaderEpoch index) : Ok { s with index } where
  wf := hr.wf
  agrees := by
    rw [hr.floor]
    exact h.agrees.reclaim hr.stamp

lemma Ok.step (h : s.Ok) (op : VersionOp V) : (s.step op).Ok := by
  cases op with
  | stage env writes epoch install =>
    obtain ⟨hself, hstaged⟩ := stage_spec h.wf env writes epoch
    exact h.install hself fun index hindex => h.commits (hstaged index hindex)
  | stageWithReadBarrier env writes epoch install =>
    obtain ⟨hself, hstaged⟩ := stageWithReadBarrier_spec h.wf env writes epoch
    refine h.install hself fun index hindex => ?_
    obtain ⟨hwf, hfloor, hstamp⟩ := hstaged index hindex
    have hagrees := (h.agrees.collapse.commit writes epoch).insert .readBarrier ⟨epoch, .live⟩
    refine ⟨hwf, ?_⟩
    dsimp only [VersionPair.commit]
    rw [hfloor, funext hstamp, VersionReference.commit, List.foldl_append]
    refine ⟨hagrees.sound, fun key e hkey => hagrees.complete key e fun hs => ?_,
      fun key hs hbehind => hagrees.dropped key hs ?_⟩
    · simpa [or_comm] using hkey hs
    · simpa [and_comm] using hbehind
  | applyPrepared shared writes epoch =>
    exact h.commits (applyPrepared_commits h.wf shared writes epoch)
  | pruneBefore env oldestReaderEpoch =>
    exact h.reclaims (pruneBefore_reclaims h.wf env oldestReaderEpoch)
  | pruneTombstonesBefore env oldestReaderEpoch =>
    exact h.reclaims (pruneTombstonesBefore_reclaims h.wf env oldestReaderEpoch)

lemma Ok.foldl : ∀ (ops : List (VersionOp V)) {s : VersionPair V}, s.Ok →
    (ops.foldl VersionPair.step s).Ok
  | [], _, h => h
  | op :: ops, _, h => foldl ops (h.step op)

lemma ok_run (maxEstimatedBytes maxHistoryBytes : ℕ) (ops : List (VersionOp V)) :
    (run maxEstimatedBytes maxHistoryBytes ops).Ok := by
  refine Ok.foldl ops ⟨wf_withHistoryLimit _ _, fun key s h => ?_, fun _ _ _ h => ?_,
    fun _ _ h => ?_⟩
  · cases key <;> cases h
  · cases h
  · cases h

end VersionPair

end HawDB
