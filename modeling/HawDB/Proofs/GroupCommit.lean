import HawDB.GroupCommit

/-!
# Group commit completes every request once, and acknowledges no commit that is not durable

At any time the requests are, in the order in which they were enqueued, those completed, those the
leader holds and those in the queue (`Books`). The rest of the invariant is what the leader's phase
says about the log of its group (`Leader.Fits`).
-/

namespace HawDB.GroupCommit

open List Function Sequencer GroupLog

variable {O : Type}

namespace GroupLog

/-- The task of a request returned, the sync succeeded and the required checkpoint let the group
pass. -/
def Acknowledges (group : GroupLog O) (request : ℕ) (output : O) : Prop :=
  (request, CallOutcome.returned (Except.ok output)) ∈ group.ran ∧
    group.synced = some (.returned (.ok ())) ∧
    ∃ found, group.checkpoint = some (.returned found) ∧
      found.complete "group commit durability" = .ok ()

def Sound (group : GroupLog O) : Prop :=
  ∀ request output, (request, Except.ok output) ∈ group.completed → group.Acknowledges request output

def Open (group : GroupLog O) : Prop :=
  group.synced = none ∧ group.checkpoint = none ∧ group.completed = []

/-- The successes among some results are those of tasks that ran. -/
def Ran (group : GroupLog O) (completed : Completed O) : Prop :=
  ∀ request output, (request, Except.ok output) ∈ completed →
    (request, CallOutcome.returned (Except.ok output)) ∈ group.ran

lemma sound_of_completed_eq_nil {group : GroupLog O} (h : group.completed = []) : group.Sound := by
  intro request output hmem
  rw [h] at hmem
  cases hmem

lemma Ran.nil (group : GroupLog O) : group.Ran [] := nofun

end GroupLog

namespace Leader

/-- The requests a leader has taken and not yet completed. -/
def held : Leader O → List ℕ
  | .gathering | .starting => []
  | .collecting completed | .syncing completed | .checkpointing completed
  | .completing completed => completed.map Prod.fst
  | .running completed request => completed.map Prod.fst ++ [request]

/-- The requests of a leader that have a result. -/
def recorded : Leader O → List ℕ
  | .gathering | .starting => []
  | .collecting completed | .syncing completed | .checkpointing completed
  | .completing completed | .running completed _ => completed.map Prod.fst

lemma recorded_sublist_held (leader : Leader O) : leader.recorded.Sublist leader.held := by
  cases leader with
  | running completed request => exact sublist_append_left _ _
  | _ => exact Sublist.refl _

/-- What a leader's phase says about its group, and about the front of the queue. -/
def Fits (group : GroupLog O) (queue : List ℕ) (client : ℕ) : Leader O → Prop
  | .gathering | .starting => group = .empty ∧ queue.head? = some client
  | .collecting completed =>
    group.Open ∧ group.Ran completed ∧ (completed = [] → queue.head? = some client)
  | .running completed _ => group.Open ∧ group.Ran completed
  | .syncing completed => group.Open ∧ group.Ran completed ∧ completed ≠ []
  | .checkpointing completed =>
    group.synced = some (.returned (.ok ())) ∧ group.checkpoint = none ∧ group.completed = [] ∧
      group.Ran completed ∧ completed ≠ []
  | .completing completed =>
    ∀ request output, (request, Except.ok output) ∈ completed → group.Acknowledges request output

lemma Fits.append {group : GroupLog O} {queue : List ℕ} {client : ℕ} {leader : Leader O}
    (h : leader.Fits group queue client) (more : List ℕ) :
    leader.Fits group (queue ++ more) client := by
  have hhead : queue.head? = some client → (queue ++ more).head? = some client := fun hhead => by
    rw [head?_append, hhead]
    rfl
  cases leader with
  | gathering => exact ⟨h.1, hhead h.2⟩
  | starting => exact ⟨h.1, hhead h.2⟩
  | collecting completed => exact ⟨h.1, h.2.1, fun hnil => hhead (h.2.2 hnil)⟩
  | running completed request => exact h
  | syncing completed => exact h
  | checkpointing completed => exact h
  | completing completed => exact h

end Leader

def heldBy (lead : Option (ℕ × Leader O)) : List ℕ := lead.elim [] fun (_, leader) => leader.held

/-- Those of them that have a result. -/
def recordedBy (lead : Option (ℕ × Leader O)) : List ℕ :=
  lead.elim [] fun (_, leader) => leader.recorded

namespace Sequencer

/-- The threads: only the leader's client is in `run_group_commit`. -/
structure Threads (s : Sequencer O) (lead : Option (ℕ × Leader O)) : Prop where
  active : s.leaderActive = lead.isSome
  leading : ∀ client leader, s.clients client = .leading leader ↔ lead = some (client, leader)
  submitted : ∀ client leader, lead = some (client, leader) → client < s.submitted

/-- The requests: each is completed, held or queued, in this order, and a result is there or has
been returned exactly for those completed. -/
structure Books (s : Sequencer O) (held : List ℕ) : Prop where
  order : s.completions.map Prod.fst ++ (held ++ s.queue) = range s.submitted
  tasks : ∀ request ∈ s.queue, (s.requests request).task
  pending : ∀ request ∈ held ++ s.queue, (s.requests request).result = none
  waiting : ∀ request ∈ held ++ s.queue, ∀ result, s.clients request ≠ .returned result
  results : ∀ request result, (request, result) ∈ s.completions →
    (s.requests request).result = some result ∨ s.clients request = .returned result
  recorded : ∀ request result, (s.requests request).result = some result ∨
    s.clients request = .returned result → (request, result) ∈ s.completions

/-- The logs of the groups. -/
structure Logs (s : Sequencer O) (lead : Option (ℕ × Leader O)) : Prop where
  past : ∀ group ∈ s.past, group.Sound ∧
    (group.ran.map Prod.fst).Sublist (group.completed.map Prod.fst)
  sound : s.group.Sound
  ran : (s.group.ran.map Prod.fst).Sublist (s.group.completed.map Prod.fst ++ recordedBy lead)
  fits : ∀ client leader, lead = some (client, leader) → leader.Fits s.group s.queue client

structure Inv (s : Sequencer O) (lead : Option (ℕ × Leader O)) : Prop where
  threads : s.Threads lead
  books : s.Books (heldBy lead)
  logs : s.Logs lead

lemma Inv.init : (init : Sequencer O).Inv none where
  threads := ⟨rfl, fun _ _ => ⟨nofun, nofun⟩, nofun⟩
  books :=
    { order := rfl
      tasks := nofun
      pending := nofun
      waiting := nofun
      results := nofun
      recorded := fun _ _ h => h.elim nofun fun h => nomatch h }
  logs :=
    { past := nofun
      sound := sound_of_completed_eq_nil rfl
      ran := Sublist.refl _
      fits := fun _ _ h => nomatch h }

variable {request : ℕ}

section

variable {s : Sequencer O} {held : List ℕ}

lemma Books.nodup (h : s.Books held) : (s.completions.map Prod.fst ++ (held ++ s.queue)).Nodup := by
  rw [h.order]
  exact nodup_range

lemma Books.completed_or (h : s.Books held) (hlt : request < s.submitted) :
    (∃ result, (request, result) ∈ s.completions) ∨ request ∈ held ++ s.queue := by
  have hmem : request ∈ s.completions.map Prod.fst ++ (held ++ s.queue) := by
    rw [h.order]
    exact mem_range.2 hlt
  rcases mem_append.1 hmem with hdone | hopen
  · obtain ⟨⟨_, result⟩, hin, rfl⟩ := mem_map.1 hdone
    exact .inl ⟨result, hin⟩
  · exact .inr hopen

lemma Books.lt_of_mem (h : s.Books held)
    (hmem : request ∈ s.completions.map Prod.fst ++ (held ++ s.queue)) : request < s.submitted := by
  rw [h.order] at hmem
  exact mem_range.1 hmem

/-- The books do not depend on who leads, nor on the log of the group but for its results. -/
theorem Books.congr {s' : Sequencer O} (h : s.Books held)
    (hsubmitted : s'.submitted = s.submitted) (hcompletions : s'.completions = s.completions)
    (hheld : held' ++ s'.queue = held ++ s.queue)
    (htasks : ∀ request ∈ s'.queue, (s'.requests request).task)
    (hresult : ∀ request, (s'.requests request).result = (s.requests request).result)
    (hreturned : ∀ {request result},
      s'.clients request = .returned result ↔ s.clients request = .returned result) :
    s'.Books held' where
  order := by rw [hcompletions, hheld, hsubmitted, h.order]
  tasks := htasks
  pending := by
    rw [hheld]
    exact fun request hmem => (hresult request).trans (h.pending request hmem)
  waiting := by
    rw [hheld]
    exact fun request hmem result heq => h.waiting request hmem result (hreturned.1 heq)
  results := by simpa only [hcompletions, hresult, hreturned] using h.results
  recorded := by simpa only [hcompletions, hresult, hreturned] using h.recorded

end

lemma completions_eq (s : Sequencer O) :
    s.completions = s.past.flatMap completed ++ s.group.completed := by
  simp [completions, groups]

variable {result : Except HawDBError O} {queue : List ℕ} {requests : ℕ → QueuedCommit O}
  {group : GroupLog O}

def waits : Client O → ℕ
  | .returned _ => 0
  | _ => 1

def unreturned (s : Sequencer O) : ℕ :=
  ∑ client ∈ Finset.range s.submitted, waits (s.clients client)

lemma waits_update {clients : ℕ → Client O}
    (hold : waits (clients client) = 1) (hnew : waits state = 1) (other : ℕ) :
    waits (update clients client state other) = waits (clients other) := by
  by_cases hother : other = client
  · rw [hother, update_self, hold, hnew]
  · rw [update_of_ne hother]

lemma returned_update {clients : ℕ → Client O}
    (hold : waits (clients client) = 1) (hnew : waits state = 1) :
    update clients client state other = .returned result ↔ clients other = .returned result := by
  by_cases hother : other = client
  · subst hother
    rw [update_self]
    constructor <;> intro heq
    · rw [heq] at hnew
      cases hnew
    · rw [heq] at hold
      cases hold
  · rw [update_of_ne hother]

/-- How far a leader is from the end of its group. A group that has nothing left to complete is
followed by no leader, and that by the next one. -/
def rank : Option (ℕ × Leader O) → ℕ
  | some (_, .completing []) => 11
  | none => 10
  | some (_, .gathering) => 9
  | some (_, .starting) => 8
  | some (_, .running _ _) => 7
  | some (_, .collecting _) => 6
  | some (_, .syncing _) => 5
  | some (_, .checkpointing _) => 4
  | some (_, .completing (_ :: _)) => 3

/-- The work left. Taking a request from the queue, completing one and returning a result make it
less, and so does every step of a leader. -/
def work (s : Sequencer O) (lead : Option (ℕ × Leader O)) : ℕ :=
  20 * s.queue.length + 16 * (heldBy lead).length + rank lead + s.unreturned

/-- A step that keeps the invariant and leaves less work. -/
def Advances (s : Sequencer O) (lead : Option (ℕ × Leader O)) (s' : Sequencer O) : Prop :=
  ∃ lead', s'.Inv lead' ∧ s'.work lead' < s.work lead

variable {maxEntries : ℕ+}

section

variable {s : Sequencer O} {client : ℕ} {leader next : Leader O}

/-- A client's new state is the only one that can change who leads. -/
theorem Threads.leading_update (h : s.Threads lead)
    (hself : ∀ leader, state = .leading leader ↔ lead' = some (client, leader))
    (hothers : ∀ other ≠ client, ∀ leader,
      lead' = some (other, leader) ↔ lead = some (other, leader)) (other : ℕ) (leader : Leader O) :
    update s.clients client state other = .leading leader ↔ lead' = some (other, leader) := by
  by_cases hother : other = client
  · subst hother
    rw [update_self, hself]
  · rw [update_of_ne hother, h.leading, hothers other hother]

section

variable (h : s.Threads (some (client, leader)))

include h

lemma Threads.setLeader : (s.setLeader client next).Threads (some (client, next)) where
  active := h.active
  leading := h.leading_update (by simp) fun other hne _ => by simp [hne.symm]
  submitted other state heq := by
    cases heq
    exact h.submitted client leader rfl

lemma Threads.returned_iff : (s.setLeader client next).clients other = .returned result ↔
      s.clients other = .returned result := by
  exact returned_update (by rw [(h.leading client leader).2 rfl]; rfl) rfl

lemma Threads.unreturned_eq :
    ({ s with queue, requests, group }.setLeader client next).unreturned = s.unreturned := by
  refine Finset.sum_congr rfl fun other _ => waits_update ?_ rfl other
  rw [(h.leading client leader).2 rfl]
  rfl

end

section

variable (h : s.Inv (some (client, leader))) (hheld : next.held ++ queue = leader.held ++ s.queue)
  (htasks : ∀ request ∈ queue, (requests request).task)
  (hresult : ∀ request, (requests request).result = (s.requests request).result)
  (hcompleted : group.completed = s.group.completed) (hsound : group.Sound)
  (hran : (group.ran.map Prod.fst).Sublist (group.completed.map Prod.fst ++ next.recorded))
  (hfits : next.Fits group queue client)

include h hheld htasks hresult hcompleted hsound hran hfits

/-- A step of the leader that completes nothing: it may take requests from the front of the queue,
and write to the log of its group. -/
theorem Inv.move :
    ({ s with queue, requests, group }.setLeader client next).Inv (some (client, next)) := by
  have hcompletions : ({ s with queue, requests, group }.setLeader client next).completions =
      s.completions := by
    rw [completions_eq, completions_eq]
    show s.past.flatMap completed ++ group.completed = _
    rw [hcompleted]
  have hthreads := h.threads
  refine ⟨?_, ?_, ?_⟩
  · exact (⟨hthreads.active, hthreads.leading, hthreads.submitted⟩ :
      Threads { s with queue, requests, group } (some (client, leader))).setLeader
  · exact h.books.congr rfl hcompletions hheld htasks hresult hthreads.returned_iff
  · exact ⟨h.logs.past, hsound, hran, fun other state heq => by cases heq; exact hfits⟩

lemma Inv.advance (hrank : 4 * queue.length + rank (some (client, next)) <
      4 * s.queue.length + rank (some (client, leader))) :
    s.Advances (some (client, leader)) ({ s with queue, requests, group }.setLeader client next) := by
  refine ⟨some (client, next), h.move hheld htasks hresult hcompleted hsound hran hfits, ?_⟩
  have hlength := congrArg length hheld
  rw [length_append, length_append] at hlength
  rw [work, work, h.threads.unreturned_eq]
  show 20 * queue.length + 16 * next.held.length + _ + _ <
    20 * s.queue.length + 16 * leader.held.length + _ + _
  omega

end

lemma Inv.stay (h : s.Inv (some (client, leader))) (hheld : next.held = leader.held)
    (hcompleted : group.completed = s.group.completed) (hsound : group.Sound)
    (hran : (group.ran.map Prod.fst).Sublist (group.completed.map Prod.fst ++ next.recorded))
    (hfits : next.Fits group s.queue client)
    (hrank : rank (some (client, next)) < rank (some (client, leader))) :
    s.Advances (some (client, leader)) ({ s with group }.setLeader client next) :=
  h.advance (by rw [hheld]) h.books.tasks (fun _ => rfl) hcompleted hsound hran hfits (by omega)

variable {completed : Completed O}

lemma rank_completing (h : completed ≠ []) :
    rank (some (client, Leader.completing completed)) = 3 := by
  cases completed with
  | nil => exact absurd rfl h
  | cons => rfl

lemma map_fst_failCompletedCommits (completed : Completed O) (text : String) :
    (failCompletedCommits completed text).map Prod.fst = completed.map Prod.fst := by
  simp [failCompletedCommits]

lemma map_fst_failSuccesses (completed : Completed O) (text : String) :
    (failSuccesses completed text).map Prod.fst = completed.map Prod.fst := by
  rw [failSuccesses, map_map]
  refine map_congr_left fun entry _ => ?_
  obtain ⟨request, _ | _⟩ := entry <;> rfl

variable {text : String}

lemma ok_notMem_failCompletedCommits :
    (request, Except.ok output) ∉ failCompletedCommits completed text := by
  simp [failCompletedCommits]

lemma ok_notMem_failSuccesses : (request, Except.ok output) ∉ failSuccesses completed text := by
  intro hmem
  obtain ⟨⟨other, _ | _⟩, -, heq⟩ := mem_map.1 hmem <;> cases heq

section

variable (h : s.Inv (some (client, leader)))

include h

lemma Inv.fail {failed : Completed O} (hfailed : failed.map Prod.fst = leader.held)
    (hne : leader.held ≠ []) (hok : ∀ request output, (request, Except.ok output) ∉ failed)
    (hcompleted : group.completed = s.group.completed) (hnone : s.group.completed = [])
    (hran : (group.ran.map Prod.fst).Sublist leader.held) (hrank : 3 < rank (some (client, leader))) :
    s.Advances (some (client, leader)) ({ s with group }.setLeader client (.completing failed)) := by
  have hne' : failed ≠ [] := by
    rintro rfl
    exact hne hfailed.symm
  refine h.stay hfailed hcompleted
    (sound_of_completed_eq_nil (hcompleted.trans hnone)) ?_
    (fun request output hmem => absurd hmem (hok request output)) ?_
  · show (group.ran.map Prod.fst).Sublist (_ ++ failed.map Prod.fst)
    rw [hcompleted, hnone, hfailed]
    exact hran
  · rw [rank_completing hne']
    exact hrank

lemma Inv.ran_sublist (hnone : s.group.completed = []) :
    (s.group.ran.map Prod.fst).Sublist leader.recorded := by
  have hran := h.logs.ran
  rw [hnone] at hran
  exact hran

lemma Inv.fits : leader.Fits s.group s.queue client :=
  h.logs.fits client leader rfl

lemma Inv.failFrontGroup (hheld : leader.held = []) (hhead : s.queue.head? = some client)
    (hnone : s.group.completed = []) (hrank : 3 < rank (some (client, leader))) :
    s.Advances (some (client, leader)) (s.failFrontGroup maxEntries client text) := by
  have hlength : 0 < s.queue.length := by
    rw [length_pos_iff]
    rintro hnil
    rw [hnil] at hhead
    cases hhead
  have hcount : 0 < min s.queue.length maxEntries := lt_min hlength maxEntries.pos
  have hran : s.group.ran.map Prod.fst = [] := by
    refine sublist_nil.1 ?_
    rw [← hheld]
    exact (h.ran_sublist hnone).trans leader.recorded_sublist_held
  refine h.advance ?_ (fun request hmem => h.books.tasks request (mem_of_mem_drop hmem))
    (fun _ => rfl) rfl (sound_of_completed_eq_nil hnone) ?_ ?_ ?_
  · show _ ++ _ = leader.held ++ s.queue
    rw [hheld, Leader.held, map_map]
    simp [comp_def]
  · rw [hran]
    exact nil_sublist _
  · intro request output hmem
    obtain ⟨other, -, heq⟩ := mem_map.1 hmem
    cases heq
  · rw [rank_completing (by
      rw [Ne, map_eq_nil_iff, take_eq_nil_iff]
      rw [length_pos_iff] at hlength
      rintro (hzero | hnil)
      · omega
      · exact hlength hnil)]
    rw [length_drop]
    omega

lemma Inv.panicGroup (hheld : completed.map Prod.fst = leader.held) (hne : leader.held ≠ [])
    (hcompleted : group.completed = s.group.completed) (hnone : s.group.completed = [])
    (hran : (group.ran.map Prod.fst).Sublist leader.held) (hrank : 3 < rank (some (client, leader))) :
    s.Advances (some (client, leader)) (panicGroup { s with group } client completed) :=
  h.fail ((map_fst_failCompletedCommits completed panickedText).trans hheld) hne
    (fun _ _ => ok_notMem_failCompletedCommits) hcompleted hnone hran hrank

end

lemma Inv.stopGroup (h : s.Inv (some (client, .collecting completed))) :
    s.Advances (some (client, .collecting completed))
      (s.stopGroup maxEntries client completed text) := by
  obtain ⟨⟨hsynced, hcheckpoint, hnone⟩, hran, hhead⟩ := h.fits
  unfold Sequencer.stopGroup
  split_ifs with hnil
  · subst hnil
    exact h.failFrontGroup rfl (hhead rfl) hnone (by simp [rank])
  · exact h.fail (map_fst_failCompletedCommits completed _)
      (fun heq => hnil (map_eq_nil_iff.1 heq)) (fun _ _ => ok_notMem_failCompletedCommits) rfl
      hnone (h.ran_sublist hnone) (by simp [rank])

lemma Inv.collect (h : s.Inv (some (client, .collecting completed))) :
    s.Advances (some (client, .collecting completed))
      (s.collect maxEntries client completed locked) := by
  obtain ⟨hopen, hran, hhead⟩ := h.fits
  have hsound := sound_of_completed_eq_nil hopen.2.2
  unfold Sequencer.collect
  split_ifs with hroom
  · cases locked with
    | error text => exact h.stopGroup
    | ok _ =>
      cases hqueue : s.queue with
      | nil =>
        refine h.stay rfl rfl hsound h.logs.ran ⟨hopen, hran, ?_⟩ (by simp [rank])
        rintro rfl
        have := hhead rfl
        rw [hqueue] at this
        cases this
      | cons request queue =>
        dsimp only
        have htasks : ∀ other ∈ queue, (s.requests other).task := fun other hmem =>
          h.books.tasks other (by rw [hqueue]; exact mem_cons_of_mem _ hmem)
        have hnodup : request ∉ queue := by
          have hnodup := (nodup_append.1 (nodup_append.1 h.books.nodup).2.1).2.1
          rw [hqueue] at hnodup
          exact (nodup_cons.1 hnodup).1
        split_ifs with htask
        · refine h.advance ?_ ?_ ?_ rfl hsound h.logs.ran ⟨hopen, hran⟩ ?_
          · show completed.map Prod.fst ++ [request] ++ queue = completed.map Prod.fst ++ s.queue
            rw [hqueue, append_assoc]
            rfl
          · intro other hmem
            have hother : other ≠ request := fun heq => hnodup (heq ▸ hmem)
            rw [update_of_ne hother]
            exact htasks other hmem
          · intro other
            by_cases hother : other = request
            · subst hother
              rw [update_self]
            · rw [update_of_ne hother]
          · rw [hqueue, length_cons]
            show 4 * queue.length + 7 < 4 * (queue.length + 1) + 6
            omega
        · exact absurd (h.books.tasks request (by rw [hqueue]; exact mem_cons_self)) htask
  · refine h.stay rfl rfl hsound h.logs.ran ⟨hopen, hran, ?_⟩ (by simp [rank])
    rintro rfl
    exact hroom maxEntries.pos

lemma Inv.runTask (h : s.Inv (some (client, .running completed request))) :
    s.Advances (some (client, .running completed request))
      (s.runTask client completed request task stopped) := by
  obtain ⟨⟨hsynced, hcheckpoint, hnone⟩, hran⟩ := h.fits
  have hheld : (Leader.running completed request).held = completed.map Prod.fst ++ [request] := rfl
  have hne : (Leader.running completed request).held ≠ [] := by simp [Leader.held]
  have hsub : ((s.group.ran ++ [(request, task)]).map Prod.fst).Sublist
      (completed.map Prod.fst ++ [request]) := by
    rw [map_append]
    exact (h.ran_sublist hnone).append (Sublist.refl _)
  cases task with
  | panicked =>
    exact h.panicGroup (by simp [Leader.held]) hne rfl hnone hsub (by simp [rank])
  | returned result =>
    have hmap : (completed ++ [(request, result)]).map Prod.fst =
        completed.map Prod.fst ++ [request] := by rw [map_append]; rfl
    have hran' : GroupLog.Ran { s.group with ran := s.group.ran ++ [(request, .returned result)] }
        (completed ++ [(request, result)]) := by
      intro other output hmem
      rcases mem_append.1 hmem with hold | hnew
      · exact mem_append_left _ (hran other output hold)
      · cases mem_singleton.1 hnew
        exact mem_append_right _ (mem_singleton.2 rfl)
    have hsound : GroupLog.Sound
        { s.group with ran := s.group.ran ++ [(request, .returned result)] } :=
      sound_of_completed_eq_nil hnone
    have hsub' : ((s.group.ran ++ [(request, CallOutcome.returned result)]).map Prod.fst).Sublist
        (s.group.completed.map Prod.fst ++ (completed ++ [(request, result)]).map Prod.fst) := by
      rw [hnone, hmap]
      exact hsub
    cases stopped with
    | true | false =>
      exact h.stay hmap rfl hsound hsub' ⟨⟨hsynced, hcheckpoint, hnone⟩, hran', by simp⟩
        (by simp [rank])

lemma Inv.sync (h : s.Inv (some (client, .syncing completed))) :
    s.Advances (some (client, .syncing completed)) (s.sync client completed outcome) := by
  obtain ⟨⟨hsynced, hcheckpoint, hnone⟩, hran, hne⟩ := h.fits
  have hheld : (Leader.syncing completed).held ≠ [] := fun heq => hne (map_eq_nil_iff.1 heq)
  match outcome with
  | .panicked => exact h.panicGroup rfl hheld rfl hnone (h.ran_sublist hnone) (by simp [rank])
  | .returned (.ok ()) =>
    exact h.stay rfl rfl (sound_of_completed_eq_nil hnone) h.logs.ran
      ⟨rfl, hcheckpoint, hnone, hran, hne⟩ (by simp [rank])
  | .returned (.error text) =>
    exact h.fail (map_fst_failSuccesses completed _) hheld (fun _ _ => ok_notMem_failSuccesses) rfl
      hnone (h.ran_sublist hnone) (by simp [rank])

lemma Inv.checkpoint (h : s.Inv (some (client, .checkpointing completed))) :
    s.Advances (some (client, .checkpointing completed))
      (s.checkpoint client completed outcome) := by
  obtain ⟨hsynced, hcheckpoint, hnone, hran, hne⟩ := h.fits
  have hheld : (Leader.checkpointing completed).held ≠ [] := fun heq => hne (map_eq_nil_iff.1 heq)
  unfold Sequencer.checkpoint
  cases outcome with
  | panicked => exact h.panicGroup rfl hheld rfl hnone (h.ran_sublist hnone) (by simp [rank])
  | returned found =>
    dsimp only
    cases hfound : found.complete "group commit durability" with
    | ok _ =>
      dsimp only
      refine h.stay rfl rfl (sound_of_completed_eq_nil hnone) h.logs.ran ?_ ?_
      · exact fun request output hmem => ⟨hran request output hmem, hsynced, found, rfl, hfound⟩
      · rw [rank_completing hne]
        simp [rank]
    | error text =>
      exact h.fail (map_fst_failSuccesses completed _) hheld (fun _ _ => ok_notMem_failSuccesses)
        rfl hnone (h.ran_sublist hnone) (by simp [rank])

lemma Inv.complete_cons (h : s.Inv (some (client, .completing ((request, result) :: completed))))
    :
    s.Advances (some (client, .completing ((request, result) :: completed)))
      (s.complete client ((request, result) :: completed)) := by
  have hheld : heldBy (some (client, Leader.completing ((request, result) :: completed))) =
      request :: completed.map Prod.fst := rfl
  have hbooks := h.books
  rw [hheld] at hbooks
  have hthreads := h.threads
  set s' := s.complete client ((request, result) :: completed) with hs'
  have hcompletions : s'.completions = s.completions ++ [(request, result)] := by
    rw [completions_eq, completions_eq, append_assoc]
    rfl
  have hrequests : s'.requests = update s.requests request
      { s.requests request with result := some result } := rfl
  have hreturned : ∀ {other outcome},
      s'.clients other = .returned outcome ↔ s.clients other = .returned outcome :=
    hthreads.returned_iff
  -- The request is not among those completed, nor is it held or queued once more.
  have hnodup := hbooks.nodup
  have hfresh : request ∉ s.completions.map Prod.fst := fun hmem =>
    (nodup_append.1 hnodup).2.2 request hmem request mem_cons_self rfl
  have hrest : request ∉ completed.map Prod.fst ++ s.queue :=
    (nodup_cons.1 (nodup_append.1 hnodup).2.1).1
  have hother : ∀ other ∈ completed.map Prod.fst ++ s.queue, other ≠ request :=
    fun other hmem heq => hrest (heq ▸ hmem)
  refine ⟨some (client, .completing completed), ⟨?_, ?_, ?_⟩, ?_⟩
  · exact (⟨hthreads.active, hthreads.leading, hthreads.submitted⟩ : Threads
      { s with
        requests := update s.requests request { s.requests request with result := some result }
        group := { s.group with completed := s.group.completed ++ [(request, result)] } }
      (some (client, .completing ((request, result) :: completed)))).setLeader
  · refine ⟨?_, fun other hmem => ?_, fun other hmem => ?_, fun other hmem outcome heq => ?_,
      fun other outcome hmem => ?_, fun other outcome hor => ?_⟩
    · rw [hcompletions, map_append, append_assoc]
      exact hbooks.order
    · rw [hrequests, update_of_ne (hother other (mem_append_right _ hmem))]
      exact hbooks.tasks other hmem
    · rw [hrequests, update_of_ne (hother other hmem)]
      exact hbooks.pending other (mem_cons_of_mem _ hmem)
    · exact hbooks.waiting other (mem_cons_of_mem _ hmem) outcome (hreturned.1 heq)
    · rw [hcompletions] at hmem
      rcases mem_append.1 hmem with hold | hnew
      · have hne : other ≠ request := fun heq =>
          hfresh (heq ▸ mem_map_of_mem hold)
        rw [hrequests, update_of_ne hne]
        exact (hbooks.results other outcome hold).imp_right hreturned.2
      · cases mem_singleton.1 hnew
        rw [hrequests, update_self]
        exact .inl rfl
    · rw [hcompletions]
      by_cases hne : other = request
      · subst hne
        refine mem_append_right _ (mem_singleton.2 ?_)
        rcases hor with hresult | heq
        · rw [hrequests, update_self] at hresult
          rw [Option.some.inj hresult]
        · exact absurd (hreturned.1 heq) (hbooks.waiting other mem_cons_self outcome)
      · rw [hrequests, update_of_ne hne] at hor
        exact mem_append_left _ (hbooks.recorded other outcome (hor.imp_right hreturned.1))
  · have hfits := h.fits
    refine ⟨h.logs.past, fun other output hmem => ?_, ?_, fun other state heq => ?_⟩
    · rcases mem_append.1 hmem with hold | hnew
      · exact h.logs.sound other output hold
      · obtain ⟨rfl, rfl⟩ := Prod.mk.inj (mem_singleton.1 hnew)
        exact hfits other output mem_cons_self
    · have hran := h.logs.ran
      show (s.group.ran.map Prod.fst).Sublist
        ((s.group.completed ++ [(request, result)]).map Prod.fst ++ completed.map Prod.fst)
      rw [map_append, append_assoc]
      exact hran
    · cases heq
      exact fun other output hmem => hfits other output (mem_cons_of_mem _ hmem)
  · have hunreturned : s'.unreturned = s.unreturned := hthreads.unreturned_eq
    have hrank : rank (some (client, Leader.completing completed)) ≤ 11 := by
      cases completed <;> simp [rank]
    rw [work, work, hunreturned, hheld]
    show 20 * s.queue.length + 16 * (completed.map Prod.fst).length + _ + _ <
      20 * s.queue.length + 16 * (request :: completed.map Prod.fst).length + 3 + _
    rw [length_cons]
    omega

lemma Inv.complete_nil (h : s.Inv (some (client, .completing []))) :
    s.Advances (some (client, .completing [])) (s.complete client []) := by
  have hthreads := h.threads
  have hclient := (hthreads.leading client (.completing [])).2 rfl
  set s' := s.complete client [] with hs'
  have hwaits : waits (s.clients client) = 1 := by
    rw [hclient]
    rfl
  refine ⟨none, ⟨⟨rfl, ?_, nofun⟩, ?_, ?_⟩, ?_⟩
  · exact hthreads.leading_update (by simp) fun other hne _ => by simp [hne.symm]
  · exact h.books.congr rfl rfl rfl h.books.tasks (fun _ => rfl) (returned_update hwaits rfl)
  · exact ⟨h.logs.past, h.logs.sound, h.logs.ran, nofun⟩
  · have hunreturned : s'.unreturned = s.unreturned :=
      Finset.sum_congr rfl fun other _ => waits_update hwaits rfl other
    rw [work, work, hunreturned]
    show 20 * s.queue.length + 16 * 0 + 10 + _ < 20 * s.queue.length + 16 * 0 + 11 + _
    omega

lemma Inv.leaderStep (h : s.Inv (some (client, leader))) (maxEntries : ℕ+) (w : Surroundings O) :
    s.Advances (some (client, leader)) (s.leaderStep maxEntries client w leader) := by
  have hfits := h.fits
  cases leader with
  | gathering =>
    obtain ⟨hempty, hhead⟩ := hfits
    have hnone : s.group.completed = [] := by rw [hempty]; rfl
    unfold leaderStep
    cases w.gathered with
    | ok _ =>
      exact h.stay rfl rfl (sound_of_completed_eq_nil hnone) h.logs.ran ⟨hempty, hhead⟩
        (by simp [rank])
    | error text => exact h.failFrontGroup rfl hhead hnone (by simp [rank])
  | starting =>
    obtain ⟨hempty, hhead⟩ := hfits
    have hnone : s.group.completed = [] := by rw [hempty]; rfl
    unfold leaderStep
    cases w.started with
    | ok _ =>
      refine h.stay rfl rfl (sound_of_completed_eq_nil hnone) h.logs.ran ?_ (by simp [rank])
      rw [hempty]
      exact ⟨⟨rfl, rfl, rfl⟩, .nil _, fun _ => hhead⟩
    | error text => exact h.failFrontGroup rfl hhead hnone (by simp [rank])
  | collecting completed => exact h.collect
  | running completed request => exact h.runTask
  | syncing completed => exact h.sync
  | checkpointing completed => exact h.checkpoint
  | completing completed =>
    cases completed with
    | nil => exact h.complete_nil
    | cons entry completed => exact h.complete_cons

end

section

variable {s : Sequencer O} {lead : Option (ℕ × Leader O)}

lemma Inv.enqueue (h : s.Inv lead) : s.enqueue.Inv lead := by
  have hold : ∀ {request},
      request ∈ s.completions.map Prod.fst ++ (heldBy lead ++ s.queue) → request ≠ s.submitted :=
    fun hmem => (h.books.lt_of_mem hmem).ne
  have hopen : ∀ {request}, request ∈ heldBy lead ++ s.queue → request ≠ s.submitted :=
    fun hmem => hold (mem_append_right _ hmem)
  have hrequests : s.enqueue.requests = update s.requests s.submitted ⟨true, none⟩ := rfl
  have hclients : s.enqueue.clients = update s.clients s.submitted .polling := rfl
  have hqueue : s.enqueue.queue = s.queue ++ [s.submitted] := rfl
  have hsplit : ∀ {request}, request ∈ heldBy lead ++ (s.queue ++ [s.submitted]) →
      request ∈ heldBy lead ++ s.queue ∨ request = s.submitted := by
    intro request hmem
    rw [← append_assoc] at hmem
    exact (mem_append.1 hmem).imp_right mem_singleton.1
  refine ⟨⟨h.threads.active, ?_, fun client leader heq => ?_⟩, ?_, ?_⟩
  · refine h.threads.leading_update (fun leader => ⟨by simp, fun heq => ?_⟩) fun _ _ _ => .rfl
    exact absurd (h.threads.submitted _ _ heq) (lt_irrefl _)
  · exact (h.threads.submitted client leader heq).trans (Nat.lt_succ_self _)
  · refine ⟨?_, fun request hmem => ?_, fun request hmem => ?_, fun request hmem outcome => ?_,
      fun request outcome hmem => ?_, fun request outcome hor => ?_⟩
    · show s.completions.map Prod.fst ++ (heldBy lead ++ (s.queue ++ [s.submitted])) =
        range (s.submitted + 1)
      rw [range_succ, ← h.books.order]
      simp only [append_assoc]
    · rw [hqueue] at hmem
      rw [hrequests]
      rcases mem_append.1 hmem with hmem | hmem
      · rw [update_of_ne (hopen (mem_append_right _ hmem))]
        exact h.books.tasks request hmem
      · rw [mem_singleton.1 hmem, update_self]
    · rw [hrequests]
      rcases hsplit hmem with hmem | rfl
      · rw [update_of_ne (hopen hmem)]
        exact h.books.pending request hmem
      · rw [update_self]
    · rw [hclients]
      rcases hsplit hmem with hmem | rfl
      · rw [update_of_ne (hopen hmem)]
        exact h.books.waiting request hmem outcome
      · rw [update_self]
        exact nofun
    · have hne : request ≠ s.submitted := hold (mem_append_left _ (mem_map_of_mem hmem))
      rw [hrequests, hclients, update_of_ne hne, update_of_ne hne]
      exact h.books.results request outcome hmem
    · rw [hrequests, hclients] at hor
      by_cases hne : request = s.submitted
      · subst hne
        rw [update_self, update_self] at hor
        rcases hor with heq | heq <;> cases heq
      · rw [update_of_ne hne, update_of_ne hne] at hor
        exact h.books.recorded request outcome hor
  · exact ⟨h.logs.past, h.logs.sound, h.logs.ran,
      fun client leader heq => (h.logs.fits client leader heq).append _⟩

section

variable {client : ℕ} (hlt : client < s.submitted) (hclient : s.clients client = .polling)

include hlt hclient

lemma Inv.take (h : s.Inv lead) (hresult : (s.requests client).result = some result) :
    s.Advances lead (s.poll client) := by
  have hpoll : s.poll client =
      { s with
        requests := update s.requests client { s.requests client with result := none }
        clients := update s.clients client (.returned result) } := by
    rw [poll, hresult]
  have hrecorded := h.books.recorded client result (.inl hresult)
  have hopen : ∀ request ∈ heldBy lead ++ s.queue, request ≠ client := by
    rintro request hmem rfl
    rw [h.books.pending request hmem] at hresult
    cases hresult
  rw [hpoll]
  refine ⟨lead, ⟨⟨h.threads.active, ?_, h.threads.submitted⟩, ?_,
    ⟨h.logs.past, h.logs.sound, h.logs.ran, h.logs.fits⟩⟩, ?_⟩
  · refine h.threads.leading_update (fun leader => ?_) fun _ _ _ => .rfl
    simp [← h.threads.leading, hclient]
  · refine ⟨h.books.order, fun request hrequest => ?_, fun request hrequest => ?_,
      fun request hrequest outcome => ?_, fun request outcome hrequest => ?_,
      fun request outcome hor => ?_⟩
    · dsimp only
      rw [update_of_ne (hopen request (mem_append_right _ hrequest))]
      exact h.books.tasks request hrequest
    · dsimp only
      rw [update_of_ne (hopen request hrequest)]
      exact h.books.pending request hrequest
    · dsimp only
      rw [update_of_ne (hopen request hrequest)]
      exact h.books.waiting request hrequest outcome
    · dsimp only
      have hresults := h.books.results request outcome hrequest
      by_cases hother : request = client
      · subst hother
        rw [hclient, hresult] at hresults
        rw [update_self, update_self]
        rcases hresults with heq | heq
        · rw [Option.some.inj heq]
          exact .inr rfl
        · cases heq
      · rw [update_of_ne hother, update_of_ne hother]
        exact hresults
    · dsimp only at hor
      by_cases hother : request = client
      · subst hother
        rw [update_self, update_self] at hor
        rcases hor with heq | heq
        · cases heq
        · cases heq
          exact hrecorded
      · rw [update_of_ne hother, update_of_ne hother] at hor
        exact h.books.recorded request outcome hor
  · refine Nat.add_lt_add_left (Finset.sum_lt_sum (fun other _ => ?_) ⟨client, ?_, ?_⟩) _
    · dsimp only
      by_cases hother : other = client
      · subst hother
        rw [update_self]
        exact Nat.zero_le _
      · rw [update_of_ne hother]
    · exact Finset.mem_range.2 hlt
    · dsimp only
      rw [update_self, hclient]
      exact Nat.zero_lt_one

lemma Inv.takeLead (h : s.Inv none) (hresult : (s.requests client).result = none)
    (hhead : s.queue.head? = some client) : s.Advances none (s.poll client) := by
  have hpoll : s.poll client =
      { s with
        leaderActive := true
        clients := update s.clients client (.leading .gathering)
        past := s.past ++ [s.group]
        group := .empty } := by
    rw [poll, hresult]
    exact if_pos ⟨h.threads.active, hhead⟩
  have hwaits : waits (s.clients client) = 1 := by
    rw [hclient]
    rfl
  have hcompletions : (s.poll client).completions = s.completions := by
    rw [hpoll, completions_eq, completions_eq, flatMap_append]
    simp [empty]
  rw [hpoll] at hcompletions ⊢
  refine ⟨some (client, .gathering), ⟨⟨rfl, ?_, fun other leader heq => ?_⟩, ?_, ?_⟩, ?_⟩
  · exact h.threads.leading_update (by simp) fun other hne _ => by simp [hne.symm]
  · cases heq
    exact hlt
  · exact h.books.congr rfl hcompletions rfl h.books.tasks (fun _ => rfl)
      (returned_update hwaits rfl)
  · refine ⟨fun group hmem => ?_, sound_of_completed_eq_nil rfl, nil_sublist _,
      fun other leader heq => ?_⟩
    · rcases mem_append.1 hmem with hold | hnew
      · exact h.logs.past group hold
      · rw [mem_singleton.1 hnew]
        refine ⟨h.logs.sound, ?_⟩
        have hran := h.logs.ran
        rwa [show recordedBy (none : Option (ℕ × Leader O)) = [] from rfl, append_nil] at hran
    · cases heq
      exact ⟨rfl, hhead⟩
  · have hunreturned : ∑ other ∈ Finset.range s.submitted,
        waits (update s.clients client (.leading .gathering) other) = s.unreturned :=
      Finset.sum_congr rfl fun other _ => waits_update hwaits rfl other
    show 20 * s.queue.length + 16 * 0 + 9 + ∑ other ∈ Finset.range s.submitted, _ <
      20 * s.queue.length + 16 * 0 + 10 + s.unreturned
    rw [hunreturned]
    omega

lemma Inv.poll (h : s.Inv lead) : s.poll client = s ∨ s.Advances lead (s.poll client) := by
  cases hresult : (s.requests client).result with
  | some result => exact .inr (h.take hlt hclient hresult)
  | none =>
    by_cases hlead : s.leaderActive = false ∧ s.queue.head? = some client
    · have hnone : lead = none := by
        rw [← Option.isNone_iff_eq_none, ← Option.not_isSome, ← h.threads.active, hlead.1]
        rfl
      subst hnone
      exact .inr (h.takeLead hlt hclient hresult hlead.2)
    · left
      rw [Sequencer.poll, hresult]
      exact if_neg hlead

end

lemma Inv.accounted (h : s.Inv lead) (hlt : client < s.submitted)
    (hclient : s.clients client = .polling) : s.accounted client := by
  unfold Sequencer.accounted
  rcases h.books.completed_or hlt with ⟨result, hmem⟩ | hmem
  · rcases h.books.results client result hmem with hresult | hreturned
    · rw [hresult]
      simp
    · rw [hclient] at hreturned
      cases hreturned
  · rcases mem_append.1 hmem with hheld | hqueue
    · cases lead with
      | none => cases hheld
      | some lead =>
        rw [h.threads.active]
        rfl
    · simp [hqueue]

lemma Inv.step (h : s.Inv lead) (maxEntries : ℕ+) (hne : action ≠ .enqueue) :
    s.step maxEntries action = s ∨ s.Advances lead (s.step maxEntries action) := by
  cases action with
  | enqueue => exact absurd rfl hne
  | poll client =>
    simp only [Sequencer.step]
    split_ifs with hlt
    · cases hclient : s.clients client with
      | polling => exact h.poll hlt hclient
      | leading leader => exact .inl rfl
      | returned result => exact .inl rfl
    · exact .inl rfl
  | timeout client =>
    left
    simp only [Sequencer.step]
    by_cases hlt : client < s.submitted
    · rw [if_pos hlt]
      cases hclient : s.clients client with
      | polling => exact if_pos (h.accounted hlt hclient)
      | leading leader => rfl
      | returned result => rfl
    · exact if_neg hlt
  | lead client w =>
    simp only [Sequencer.step]
    cases hclient : s.clients client with
    | polling => exact .inl rfl
    | returned result => exact .inl rfl
    | leading leader =>
      have hlead := (h.threads.leading client leader).1 hclient
      subst hlead
      exact .inr (h.leaderStep maxEntries w)

lemma run_inv (maxEntries : ℕ+) (actions : List (Action O)) :
    ∃ lead, (run maxEntries actions).Inv lead := by
  induction actions using reverseRecOn with
  | nil => exact ⟨none, .init⟩
  | append_singleton actions action ih =>
    obtain ⟨lead, h⟩ := ih
    rw [run, foldl_append]
    show ∃ lead, ((run maxEntries actions).step maxEntries action).Inv lead
    by_cases hne : action = .enqueue
    · subst hne
      exact ⟨lead, h.enqueue⟩
    rcases h.step maxEntries hne with hsame | ⟨lead', h', -⟩
    · rw [hsame]
      exact ⟨lead, h⟩
    · exact ⟨lead', h'⟩

lemma Advances.ne (h : s.Inv lead) (hadvances : s.Advances lead s') : s' ≠ s := by
  rintro rfl
  obtain ⟨lead', h', hless⟩ := hadvances
  -- The leader is read off the threads, so the work left is that of the state.
  have hlead : lead' = lead := by
    cases lead with
    | none =>
      rcases lead' with _ | ⟨client, leader⟩
      · rfl
      · exact ((h.threads.leading client leader).1 ((h'.threads.leading client leader).2 rfl)).symm
    | some lead =>
      obtain ⟨client, leader⟩ := lead
      exact (h'.threads.leading client leader).1 ((h.threads.leading client leader).2 rfl)
  rw [hlead] at hless
  exact lt_irrefl _ hless

lemma Inv.terminates (h : s.Inv lead) (maxEntries : ℕ+) :
    ¬∃ states : ℕ → Sequencer O, states 0 = s ∧
      ∀ n, Progress maxEntries (states n) (states (n + 1)) := by
  induction hwork : s.work lead using Nat.strong_induction_on generalizing s lead with
  | _ work ih =>
    rintro ⟨states, hzero, hsteps⟩
    obtain ⟨action, hne, hstep, hchange⟩ := hsteps 0
    rw [hzero] at hstep hchange
    rcases h.step maxEntries hne with hsame | ⟨lead', h', hless⟩
    · exact hchange (hstep.trans hsame)
    · rw [← hstep] at h' hless
      exact ih _ (hwork ▸ hless) h' rfl ⟨fun n => states (n + 1), rfl, fun n => hsteps (n + 1)⟩

lemma Inv.finished (h : s.Inv lead) (hstuck : ∀ s', ¬Progress maxEntries s s') :
    s.completions.map Prod.fst = List.range s.submitted ∧
      ∀ client < s.submitted, ∃ result, s.clients client = .returned result := by
  have hnone : lead = none := by
    rcases lead with _ | ⟨client, leader⟩
    · rfl
    let w : Surroundings O := ⟨.ok (), .ok (), .ok (), .panicked, false, .panicked, .panicked⟩
    have hstep : s.step maxEntries (.lead client w) = s.leaderStep maxEntries client w leader := by
      simp only [Sequencer.step, (h.threads.leading client leader).2 rfl]
    exact absurd ⟨.lead client w, nofun, hstep.symm, (h.leaderStep maxEntries w).ne h⟩ (hstuck _)
  subst hnone
  have hpoll : ∀ client, client < s.submitted → s.clients client = .polling →
      ¬s.Advances none (s.poll client) := by
    intro client hlt hclient hadvances
    have hstep : s.step maxEntries (.poll client) = s.poll client := by
      simp only [Sequencer.step, if_pos hlt, hclient]
    exact hstuck _ ⟨.poll client, nofun, hstep.symm, hadvances.ne h⟩
  have hidle : ∀ client, (∀ result, s.clients client ≠ .returned result) →
      s.clients client = .polling := by
    intro client hopen
    cases hclient : s.clients client with
    | polling => rfl
    | leading leader => cases (h.threads.leading client leader).1 hclient
    | returned result => exact absurd hclient (hopen result)
  have hqueue : s.queue = [] := by
    cases hqueue : s.queue with
    | nil => rfl
    | cons client queue =>
      have hmem : client ∈ heldBy (none : Option (ℕ × Leader O)) ++ s.queue := by
        rw [hqueue]
        exact mem_cons_self
      have hlt := h.books.lt_of_mem (mem_append_right _ hmem)
      have hclient := hidle client (h.books.waiting client hmem)
      refine absurd (h.takeLead hlt hclient (h.books.pending client hmem) ?_)
        (hpoll client hlt hclient)
      rw [hqueue]
      rfl
  have horder := h.books.order
  rw [hqueue] at horder
  refine ⟨by simpa [heldBy] using horder, fun client hlt => ?_⟩
  by_contra hopen
  have hclient := hidle client (not_exists.1 hopen)
  rcases h.books.completed_or hlt with ⟨result, hmem⟩ | hmem
  · rcases h.books.results client result hmem with hresult | hreturned
    · exact hpoll client hlt hclient (h.take hlt hclient hresult)
    · exact hopen ⟨result, hreturned⟩
  · rw [hqueue] at hmem
    cases hmem

lemma Inv.sound (h : s.Inv lead) (hgroup : group ∈ s.groups) : group.Sound := by
  rcases mem_append.1 hgroup with hpast | hlast
  · exact (h.logs.past group hpast).1
  · rw [mem_singleton.1 hlast]
    exact h.logs.sound

lemma Inv.tasksRun_sublist (h : s.Inv lead) : s.tasksRun.Sublist (range s.submitted) := by
  have hpast : (s.past.flatMap fun group => group.ran.map Prod.fst).Sublist
      ((s.past.flatMap completed).map Prod.fst) := by
    rw [map_flatMap]
    exact Sublist.flatMap_right _ fun group hmem => (h.logs.past group hmem).2
  have hrecorded : (recordedBy lead).Sublist (heldBy lead) := by
    cases lead with
    | none => exact Sublist.refl _
    | some lead => exact lead.2.recorded_sublist_held
  rw [← h.books.order, completions_eq, map_append, append_assoc]
  unfold tasksRun groups
  rw [flatMap_append]
  refine hpast.append ?_
  simp only [flatMap_cons, flatMap_nil, append_nil]
  refine h.logs.ran.trans ?_
  exact (Sublist.refl _).append (hrecorded.trans (sublist_append_left _ _))

end

end Sequencer

open Sequencer in
/-- However clients and leaders are interleaved, and wherever a task, the sync or the checkpoint
fails or panics: requests are completed in the order in which they were enqueued and each at most
once, a client returns what its request was completed with, and a request succeeds only after its
task, the sync of its group and the checkpoint required did. The threads come to an end unless more
is enqueued, and then every request is completed and every client has returned. -/
theorem group_commit_acknowledgement (maxEntries : ℕ+) (actions : List (Action O)) :
    (run maxEntries actions).completions.map Prod.fst <+:
        List.range (run maxEntries actions).submitted ∧
      (∀ client result, (run maxEntries actions).clients client = .returned result →
        (client, result) ∈ (run maxEntries actions).completions) ∧
      (run maxEntries actions).tasksRun.Sublist (List.range (run maxEntries actions).submitted) ∧
      (∀ group ∈ (run maxEntries actions).groups, ∀ request output,
        (request, .ok output) ∈ group.completed →
          (request, .returned (.ok output)) ∈ group.ran ∧
          group.synced = some (.returned (.ok ())) ∧
          ∃ found, group.checkpoint = some (.returned found) ∧ found.Passed) ∧
      (¬∃ states : ℕ → Sequencer O, states 0 = run maxEntries actions ∧
        ∀ n, Progress maxEntries (states n) (states (n + 1))) ∧
      ((∀ s', ¬Progress maxEntries (run maxEntries actions) s') →
        (run maxEntries actions).completions.map Prod.fst =
            List.range (run maxEntries actions).submitted ∧
          ∀ client < (run maxEntries actions).submitted,
            ∃ result, (run maxEntries actions).clients client = .returned result) := by
  obtain ⟨lead, h⟩ := run_inv maxEntries actions
  refine ⟨⟨_, h.books.order⟩, fun client result hreturned => h.books.recorded client result
    (.inr hreturned), h.tasksRun_sublist, fun group hgroup request output hmem => ?_,
    h.terminates maxEntries, h.finished⟩
  obtain ⟨hran, hsynced, found, hcheckpoint, hpassed⟩ := h.sound hgroup request output hmem
  exact ⟨hran, hsynced, found, hcheckpoint, RequiredCheckpoint.passed_of_complete hpassed⟩

/-- A required checkpoint that is refused for want of resources: it is deferred. -/
def refusedCheckpoint : RequiredCheckpoint :=
  ⟨.ok true, false, .error (.other "execution error: memory budget exceeded"), .ok true⟩

/-- The one request of a group succeeds although the checkpoint its group required has failed. -/
theorem success_after_refused_checkpoint :
    ∃ (actions : List (Action Unit)) (group : GroupLog Unit),
      group ∈ (Sequencer.run 1 actions).groups ∧
        group.checkpoint = some (.returned refusedCheckpoint) ∧
        refusedCheckpoint.required = .ok true ∧
        (∃ failure, refusedCheckpoint.checkpoint = .error failure) ∧
        (0, .ok ()) ∈ group.completed := by
  let w : Surroundings Unit := ⟨.ok (), .ok (), .ok (), .returned (.ok ()), false,
    .returned (.ok ()), .returned refusedCheckpoint⟩
  refine ⟨[.enqueue, .poll 0, .lead 0 w, .lead 0 w, .lead 0 w, .lead 0 w, .lead 0 w, .lead 0 w,
    .lead 0 w, .lead 0 w],
    ⟨[(0, .returned (.ok ()))], some (.returned (.ok ())), some (.returned refusedCheckpoint),
      [(0, .ok ())]⟩, ?_, rfl, rfl, ⟨_, rfl⟩, mem_singleton.2 rfl⟩
  exact mem_cons_of_mem _ mem_cons_self

end HawDB.GroupCommit
