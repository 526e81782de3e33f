import HawDB.Result

/-!
# Scans that a consumer may stop

`scanUntil f l s` feeds the elements of `l` to a consumer `f` with a state, until the consumer fails
or asks to stop. A scan may pass over what it has seen (`scanUntil_distinctStep`) or let a second
ordered source go first where it is due (`scanUntil_mergeStep`).
-/

namespace HawDB

open List

inductive ScanControl where
  | proceed
  | stop
deriving DecidableEq, Repr

variable {ε α β κ σ τ : Type}

/-- Goes on with `next`, unless told to stop. -/
def resume (next : σ → Except ε (σ × ScanControl)) (r : σ × ScanControl) :
    Except ε (σ × ScanControl) :=
  match r.2 with
  | .stop => .ok r
  | .proceed => next r.1

def scanUntil (f : σ → α → Except ε (σ × ScanControl)) : List α → σ → Except ε (σ × ScanControl)
  | [], s => .ok (s, .proceed)
  | a :: rest, s => f s a >>= resume (scanUntil f rest)

lemma resume_bind (first next : σ → Except ε (σ × ScanControl)) (r : σ × ScanControl) :
    resume first r >>= resume next = resume (fun s => first s >>= resume next) r := by
  obtain ⟨s, control⟩ := r
  cases control <;> rfl

section

variable (f : σ → α → Except ε (σ × ScanControl))

lemma scanUntil_nil (s : σ) : scanUntil f [] s = .ok (s, .proceed) := rfl

lemma scanUntil_cons (a : α) (rest : List α) (s : σ) :
    scanUntil f (a :: rest) s = f s a >>= resume (scanUntil f rest) := rfl

lemma scanUntil_append (m : List α) : ∀ l s,
    scanUntil f (l ++ m) s = scanUntil f l s >>= resume (scanUntil f m)
  | [], _ => rfl
  | a :: l, s => by
    rw [cons_append, scanUntil_cons, scanUntil_cons, bind_assoc]
    congr 1
    funext r
    rw [resume_bind]
    congr 1
    funext s'
    exact scanUntil_append m l s'

lemma scanUntil_congr {f g : σ → α → Except ε (σ × ScanControl)} :
    ∀ {l}, (∀ a ∈ l, ∀ s, f s a = g s a) → ∀ s, scanUntil f l s = scanUntil g l s
  | [], _, _ => rfl
  | a :: l, h, s => by
    rw [scanUntil_cons, scanUntil_cons, h a mem_cons_self]
    congr 2
    funext s'
    exact scanUntil_congr (fun b hb => h b (mem_cons_of_mem _ hb)) s'

lemma scanUntil_filter (p : α → Bool) : ∀ l s, scanUntil f (l.filter p) s =
      scanUntil (fun s a => if p a then f s a else .ok (s, .proceed)) l s
  | [], _ => rfl
  | a :: l, s => by
    rw [scanUntil_cons]
    by_cases h : p a
    · rw [filter_cons_of_pos h, if_pos h, scanUntil_cons, funext (scanUntil_filter p l)]
    · rw [filter_cons_of_neg h, if_neg h, scanUntil_filter p l]
      rfl

end

lemma scanUntil_map (f : σ → β → Except ε (σ × ScanControl)) (g : α → β) :
    ∀ l s, scanUntil f (l.map g) s = scanUntil (fun s a => f s (g a)) l s
  | [], _ => rfl
  | a :: l, s => by
    rw [map_cons, scanUntil_cons, scanUntil_cons, funext (scanUntil_map f g l)]

lemma scanUntil_filterMap (f : σ → β → Except ε (σ × ScanControl)) (g : α → Option β) :
    ∀ l s, scanUntil f (l.filterMap g) s =
      scanUntil (fun s a => ((g a).map (f s)).getD (.ok (s, .proceed))) l s
  | [], _ => rfl
  | a :: l, s => by
    rw [scanUntil_cons, filterMap_cons]
    cases g a with
    | none => exact scanUntil_filterMap f g l s
    | some b =>
      rw [scanUntil_cons, funext (scanUntil_filterMap f g l)]
      rfl

lemma scanUntil_mapError {ε' : Type} (f : σ → α → Except ε (σ × ScanControl)) (g : ε → ε') :
    ∀ l s, (scanUntil f l s).mapError g = scanUntil (fun s a => (f s a).mapError g) l s
  | [], _ => rfl
  | a :: l, s => by
    rw [scanUntil_cons, scanUntil_cons]
    rcases f s a with e | ⟨s', _ | _⟩
    · rfl
    · exact scanUntil_mapError f g l s'
    · rfl

lemma scanUntil_flatMap (f : σ → β → Except ε (σ × ScanControl)) (g : α → List β) :
    ∀ l s, scanUntil f (l.flatMap g) s = scanUntil (fun s a => scanUntil f (g a) s) l s
  | [], _ => rfl
  | a :: l, s => by
    rw [flatMap_cons, scanUntil_append, scanUntil_cons, funext (scanUntil_flatMap f g l)]

lemma scanUntil_collect : ∀ l kept : List α,
    scanUntil (fun kept a => (.ok (kept ++ [a], .proceed) : Except ε _)) l kept =
      .ok (kept ++ l, .proceed)
  | [], kept => by rw [scanUntil_nil, append_nil]
  | a :: l, kept => by
    rw [scanUntil_cons, ok_bind]
    exact (scanUntil_collect l _).trans (by rw [append_assoc, singleton_append])

/-! ## Passing over what has been seen -/

section

variable [DecidableEq κ] (key : α → κ)

/-- The elements with a new key, in order. -/
def distinct : Finset κ → List α → List α
  | _, [] => []
  | seen, a :: rest =>
    if key a ∈ seen then distinct seen rest else a :: distinct (insert (key a) seen) rest

def distinctStep (f : σ → α → Except ε (σ × ScanControl)) (state : σ × Finset κ) (a : α) :
    Except ε ((σ × Finset κ) × ScanControl) :=
  if key a ∈ state.2 then .ok (state, .proceed)
  else (f state.1 a).map fun r => ((r.1, insert (key a) state.2), r.2)

lemma scanUntil_distinctStep (f : σ → α → Except ε (σ × ScanControl)) : ∀ l s seen,
      (scanUntil (distinctStep key f) l (s, seen)).map (fun r => (r.1.1, r.2)) =
        scanUntil f (distinct key seen l) s
  | [], _, _ => rfl
  | a :: l, s, seen => by
    rw [scanUntil_cons, distinctStep, distinct]
    split_ifs with h
    · exact scanUntil_distinctStep f l s seen
    rw [scanUntil_cons]
    rcases f s a with e | ⟨s', _ | _⟩
    · rfl
    · exact scanUntil_distinctStep f l s' (insert (key a) seen)
    · rfl

variable {key}

lemma mem_distinct_of_mem {a : α} : ∀ {seen l}, a ∈ distinct key seen l → a ∈ l ∧ key a ∉ seen
  | seen, b :: l, h => by
    rw [distinct] at h
    split_ifs at h with hb
    · obtain ⟨hmem, hseen⟩ := mem_distinct_of_mem h
      exact ⟨mem_cons_of_mem _ hmem, hseen⟩
    rcases mem_cons.1 h with rfl | h
    · exact ⟨mem_cons_self, hb⟩
    · obtain ⟨hmem, hseen⟩ := mem_distinct_of_mem h
      exact ⟨mem_cons_of_mem _ hmem, fun h => hseen (Finset.mem_insert_of_mem h)⟩

lemma exists_mem_distinct {a : α} : ∀ {seen l}, a ∈ l → key a ∉ seen →
    ∃ b ∈ distinct key seen l, key b = key a
  | seen, b :: l, h, hseen => by
    rw [distinct]
    split_ifs with hb
    · rcases mem_cons.1 h with rfl | h
      · exact absurd hb hseen
      · exact exists_mem_distinct h hseen
    by_cases hkey : key b = key a
    · exact ⟨b, mem_cons_self, hkey⟩
    have hmem : a ∈ l := (mem_cons.1 h).resolve_left fun h => hkey (h ▸ rfl)
    have hnew : key a ∉ insert (key b) seen := by
      rw [Finset.mem_insert, not_or]
      exact ⟨fun h => hkey h.symm, hseen⟩
    obtain ⟨c, hc, hckey⟩ := exists_mem_distinct hmem hnew
    exact ⟨c, mem_cons_of_mem _ hc, hckey⟩

lemma nodup_distinct : ∀ seen l, ((distinct key seen l).map key).Nodup
  | _, [] => nodup_nil
  | seen, a :: l => by
    rw [distinct]
    split_ifs
    · exact nodup_distinct seen l
    · refine nodup_cons.2 ⟨fun hmem => ?_, nodup_distinct _ l⟩
      obtain ⟨b, hb, hkey⟩ := mem_map.1 hmem
      exact (mem_distinct_of_mem hb).2 (hkey ▸ Finset.mem_insert_self _ _)

end

/-! ## Two ordered sources -/

section

variable (f : σ → α → Except ε (σ × ScanControl)) (le : α → α → Bool)

/-- Feeds the elements of a source as long as they are due. -/
def drainWhile (due : α → Bool) : List α → σ → Except ε ((σ × List α) × ScanControl)
  | [], s => .ok ((s, []), .proceed)
  | a :: rest, s =>
    if due a then f s a >>= fun r =>
      match r.2 with
      | .stop => .ok ((r.1, rest), .stop)
      | .proceed => drainWhile due rest r.1
    else .ok ((s, a :: rest), .proceed)

/-- The consumer of one source that holds the rest of another one, which goes first where due. -/
def mergeStep (state : σ × List α) (b : α) : Except ε ((σ × List α) × ScanControl) :=
  drainWhile f (le · b) state.2 state.1 >>= resume fun state =>
    (f state.1 b).map fun r => ((r.1, state.2), r.2)

/-- Feeds what is left of the other source. -/
def finishMerge (r : (σ × List α) × ScanControl) : Except ε (σ × ScanControl) :=
  match r.2 with
  | .stop => .ok (r.1.1, .stop)
  | .proceed => scanUntil f r.1.2 r.1.1

lemma scanUntil_mergeStep : ∀ base live s,
    scanUntil (mergeStep f le) base (s, live) >>= finishMerge f = scanUntil f (live.merge base le) s
  | [], live, s => by rw [merge_right]; rfl
  | b :: base, [], s => by
    rw [nil_merge, scanUntil_cons, scanUntil_cons, bind_assoc]
    show (f s b).map (fun r => ((r.1, []), r.2)) >>= _ = _
    rcases f s b with e | ⟨s', _ | _⟩
    · rfl
    · have ih := scanUntil_mergeStep base [] s'
      rwa [nil_merge] at ih
    · rfl
  | b :: base, a :: live, s => by
    rw [cons_merge_cons, scanUntil_cons, mergeStep]
    split_ifs with h
    · rw [scanUntil_cons, drainWhile, if_pos h]
      rcases f s a with e | ⟨s', _ | _⟩
      · rfl
      · exact scanUntil_mergeStep (b :: base) live s'
      · rfl
    · rw [scanUntil_cons, drainWhile, if_neg h]
      show ((f s b).map (fun r => ((r.1, a :: live), r.2)) >>= _) >>= _ = _
      rcases f s b with e | ⟨s', _ | _⟩
      · rfl
      · exact scanUntil_mergeStep base (a :: live) s'
      · rfl
termination_by base live => base.length + live.length

end

end HawDB
