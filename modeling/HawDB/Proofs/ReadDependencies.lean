import HawDB.Proofs.ReadInvalidations
import HawDB.Proofs.ValueOrder
import HawDB.Proofs.VersionStore

/-!
# Captured reads that validate have not changed

A capture keeps its registration, so every later commit stamps what its batch changes, and a
scope whose keys have no later stamp was not touched (`GraphRun.read_dependencies_sound`).
-/

namespace HawDB

open List VersionSnapshotPins HawDB.Graph
open Std (TransOrd)

section

variable {E : Type*} {f g h : ℕ → Option E} {P Q R : E → Prop}

lemma Unchanged.trans (h₁ : Unchanged f g P Q) (h₂ : Unchanged g h Q R)
    (hPQ : ∀ id e, f id = some e → P e → Q e) (hRQ : ∀ id e, g id = some e → R e → Q e) :
    Unchanged f h P R := by
  rintro id (⟨e, he, hP⟩ | ⟨e, he, hR⟩)
  · have hfg := h₁ id (.inl ⟨e, he, hP⟩)
    exact (h₂ id (.inl ⟨e, hfg.trans he, hPQ id e he hP⟩)).trans hfg
  · have hgh := h₂ id (.inr ⟨e, he, hR⟩)
    have hg : g id = some e := hgh ▸ he
    exact hgh.trans (h₁ id (.inr ⟨e, hg, hRQ id e hg hR⟩))

end

lemma NodeRecord.Named.extends {V : Type*} {node : NodeRecord V}
    (h : node.Named catalog) (hext : catalog.Extends later) : node.Named later :=
  fun l hl => (h l hl).imp fun _ hname => hext.labelName hname

lemma RelRecord.Named.extends {V : Type*} {rel : RelRecord V}
    (h : rel.Named catalog) (hext : catalog.Extends later) : rel.Named later :=
  h.imp fun _ hname => hext.relTypeName hname

namespace GraphState

variable {V : Type*} [Ord V] {s t u : GraphState V} {key : VersionKey V}

/-- Every label and every type that is used has a name. -/
structure WF (s : GraphState V) : Prop where
  nodes : ∀ id node, s.store.nodeOwned id = some node → node.Named s.catalog
  rels : ∀ id rel, s.store.relationshipOwned id = some rel → rel.Named s.catalog

lemma WF.extends (h : s.WF) (hgraph : t.store.graph = s.store.graph)
    (hext : s.catalog.Extends t.catalog) : t.WF where
  nodes id node hnode :=
    (h.nodes id node ((congrFun (congrArg Graph.node hgraph) id).symm.trans hnode)).extends hext
  rels id rel hrel :=
    (h.rels id rel ((congrFun (congrArg Graph.rel hgraph) id).symm.trans hrel)).extends hext

lemma WF.applyWalOp (h : s.WF) (op : WalOp V) : (s.applyWalOp op).WF := by
  have hext := s.extends_applyWalOp op
  have hnode : (s.applyWalOp op).store.nodeOwned = (s.store.graph.apply s.catalog op).node :=
    congrArg node (s.graph_applyWalOp op)
  have hrel : (s.applyWalOp op).store.relationshipOwned = (s.store.graph.apply s.catalog op).rel :=
    congrArg rel (s.graph_applyWalOp op)
  constructor
  · intro id node hget
    rw [hnode] at hget
    cases op with
    | createNode id' label properties =>
      simp only [apply, setNode, Function.update_apply] at hget
      split_ifs at hget
      · cases hget
        intro l hl
        rw [mem_singleton.1 hl]
        exact ⟨label, SymbolTable.nameOf_getOrCreate label⟩
      · exact (h.nodes id node hget).extends hext
    | setNodeProperty id' property value =>
      simp only [apply, setNode, Function.update_apply] at hget
      split_ifs at hget with hid
      · obtain ⟨node', hnode', rfl⟩ := Option.map_eq_some_iff.1 hget
        exact h.nodes id' node' hnode'
      · exact h.nodes id node hget
    | deleteNode id' =>
      simp only [apply, setNode, Function.update_apply] at hget
      split_ifs at hget
      exact h.nodes id node hget
    | _ => exact (h.nodes id node hget).extends hext
  · intro id rel hget
    rw [hrel] at hget
    cases op with
    | createRelationship id' source target relType properties =>
      simp only [apply, setRel, Function.update_apply] at hget
      split_ifs at hget
      · cases hget
        exact ⟨relType, SymbolTable.nameOf_getOrCreate relType⟩
      · exact (h.rels id rel hget).extends hext
    | setRelationshipProperty id' property value =>
      simp only [apply, setRel, Function.update_apply] at hget
      split_ifs at hget with hid
      · obtain ⟨rel', hrel', rfl⟩ := Option.map_eq_some_iff.1 hget
        exact h.rels id' rel' hrel'
      · exact h.rels id rel hget
    | deleteRelationship id' =>
      simp only [apply, setRel, Function.update_apply] at hget
      split_ifs at hget
      exact h.rels id rel hget
    | _ => exact (h.rels id rel hget).extends hext

lemma WF.applyWalOps (h : s.WF) (ops : WalOps V) : (s.applyWalOps ops).WF :=
  WalOps.foldl_induction WF h fun _ hs op _ => hs.applyWalOp op

/-- The elements in a scope are the same in both states. -/
structure Preserves (key : VersionKey V) (s t : GraphState V) : Prop where
  nodes : Unchanged s.store.nodeOwned t.store.nodeOwned
    (fun node => node.InScope s.catalog key) (fun node => node.InScope t.catalog key)
  rels : Unchanged s.store.relationshipOwned t.store.relationshipOwned
    (fun rel => rel.InScope s.catalog key) (fun rel => rel.InScope t.catalog key)

lemma Preserves.of_graph (hgraph : t.store.graph = s.store.graph) : Preserves key s t where
  nodes id _ := congrFun (congrArg node hgraph) id
  rels id _ := congrFun (congrArg rel hgraph) id

lemma Preserves.trans (h : Preserves key s t) (h' : Preserves key t u) (hs : s.WF) (ht : t.WF)
    (hst : s.catalog.Extends t.catalog) (htu : t.catalog.Extends u.catalog) :
    Preserves key s u where
  nodes := h.nodes.trans h'.nodes
    (fun id node hnode => (NodeRecord.inScope_extends (hs.nodes id node hnode) hst).2)
    fun id node hnode => (NodeRecord.inScope_extends (ht.nodes id node hnode) htu).1
  rels := h.rels.trans h'.rels
    (fun id rel hrel => (RelRecord.inScope_extends (hs.rels id rel hrel) hst).2)
    fun id rel hrel => (RelRecord.inScope_extends (ht.rels id rel hrel) htu).1

def nodesIn (s : GraphState V) (key : VersionKey V) : Set (ℕ × NodeRecord V) :=
  { e | s.store.nodeOwned e.1 = some e.2 ∧ e.2.InScope s.catalog key }

def relsIn (s : GraphState V) (key : VersionKey V) : Set (ℕ × RelRecord V) :=
  { e | s.store.relationshipOwned e.1 = some e.2 ∧ e.2.InScope s.catalog key }

lemma Preserves.nodesIn_eq (h : Preserves key s t) (hs : s.WF)
    (hext : s.catalog.Extends t.catalog) : t.nodesIn key = s.nodesIn key := by
  ext ⟨id, node⟩
  constructor
  · rintro ⟨hnode, hscope⟩
    have hold := (h.nodes id (.inr ⟨node, hnode, hscope⟩)).symm.trans hnode
    exact ⟨hold, (NodeRecord.inScope_extends (hs.nodes id node hold) hext).1 hscope⟩
  · rintro ⟨hnode, hscope⟩
    exact ⟨(h.nodes id (.inl ⟨node, hnode, hscope⟩)).trans hnode,
      (NodeRecord.inScope_extends (hs.nodes id node hnode) hext).2 hscope⟩

lemma Preserves.relsIn_eq (h : Preserves key s t) (hs : s.WF)
    (hext : s.catalog.Extends t.catalog) : t.relsIn key = s.relsIn key := by
  ext ⟨id, rel⟩
  constructor
  · rintro ⟨hrel, hscope⟩
    have hold := (h.rels id (.inr ⟨rel, hrel, hscope⟩)).symm.trans hrel
    exact ⟨hold, (RelRecord.inScope_extends (hs.rels id rel hold) hext).1 hscope⟩
  · rintro ⟨hrel, hscope⟩
    exact ⟨(h.rels id (.inl ⟨rel, hrel, hscope⟩)).trans hrel,
      (RelRecord.inScope_extends (hs.rels id rel hrel) hext).2 hscope⟩

lemma nodesIn_readNodeProperty
    (h : t.nodesIn (.readNodeDomain (some label)) = s.nodesIn (.readNodeDomain (some label))) :
    t.nodesIn (.readNodeProperty label property value) =
      s.nodesIn (.readNodeProperty label property value) := by
  have hsplit : ∀ u : GraphState V, u.nodesIn (.readNodeProperty label property value) =
      u.nodesIn (.readNodeDomain (some label)) ∩
        { e | ∃ w, e.2.properties.get property = some w ∧ compare w value = .eq } := fun u =>
    Set.ext fun e => and_assoc.symm
  rw [hsplit, hsplit, h]

variable [TransOrd V] [CowPageWeight V] [GraphValue V] [TypeSizes]

lemma commit_cases (s : GraphState V) (env : GraphCommitEnv) (batch : GraphBatch V) :
    (s.commit env batch).1 = s ∨ ∃ request, s.store.commitRequest batch = .ok request ∧
      match s.store.versions.commit env.versions request with
      | (versions, .error _) => (s.commit env batch).1 = ⟨{ s.store with versions }, s.catalog⟩
      | (versions, .ok _) => (s.commit env batch).1 =
          applyWalOps ⟨{ s.store with versions }, batch.workingCatalog⟩ batch.ops := by
  unfold commit
  rcases s.store.ensureUsable with e | ⟨⟩
  · exact .inl rfl
  dsimp only
  split_ifs
  · exact .inl rfl
  rcases hadmit : s.store.admitBatch env batch with e | request
  · exact .inl rfl
  refine .inr ⟨request, ?_, ?_⟩
  · unfold GraphStore.admitBatch at hadmit
    rcases hrequest : s.store.commitRequest batch with e | request'
    · rw [hrequest] at hadmit
      cases hadmit
    rw [hrequest] at hadmit
    dsimp only at hadmit
    split at hadmit <;> cases hadmit
    rfl
  · dsimp only
    rcases s.store.versions.commit env.versions request with ⟨versions, e | epoch⟩ <;> rfl

end GraphState

section

variable {V : Type*} [Ord V] [TransOrd V] [CowPageWeight V] [GraphValue V] [TypeSizes]
  {store : GraphStore V} {batch : GraphBatch V} {request : CommitRequest V} {key : VersionKey V}

section

variable (h : store.commitRequest batch = .ok request)
  (hcanonical : store.versionSnapshotPin = none) (hreaders : 0 < store.readDependencyReaders)

include h hcanonical hreaders

lemma GraphStore.commitRequest_summaries :
    request.summaries = ((store.relationshipReadInvalidations batch.workingCatalog batch.ops
      request.writes).map fun rels =>
        collectNodeReadInvalidations (.new batch.workingCatalog) store batch.ops ++ rels).toOption := by
  unfold commitRequest at h
  split at h
  · cases h
  cases h
  unfold readInvalidationStamps
  rw [hcanonical, if_neg (by simp [hreaders.ne'])]
  rfl

lemma GraphStore.not_stamped_of_not_announces (hsummary : key.isReadSummaryKey)
    (hkey : ¬VersionStore.Announces request key) :
    ∃ rels, store.relationshipReadInvalidations batch.workingCatalog batch.ops request.writes =
        .ok rels ∧ ¬Stamped rels key ∧
      ¬Stamped (collectNodeReadInvalidations (.new batch.workingCatalog) store batch.ops) key := by
  have hsummaries := commitRequest_summaries h hcanonical hreaders
  rcases hrels : store.relationshipReadInvalidations batch.workingCatalog batch.ops request.writes
    with e | rels
  · rw [hrels] at hsummaries
    refine absurd (.inr ⟨hsummary, fun summaries hsome => ?_⟩) hkey
    rw [hsummaries] at hsome
    cases hsome
  · rw [hrels] at hsummaries
    have hannounces : ∀ stamps : List (VersionKey V),
        stamps ⊆ collectNodeReadInvalidations (.new batch.workingCatalog) store batch.ops ++ rels →
        ¬Stamped stamps key := by
      refine fun stamps hsub hstamped => hkey (.inr ⟨hsummary, fun summaries hsome => ?_⟩)
      cases hsummaries.symm.trans hsome
      exact hstamped.mono hsub
    exact ⟨rels, rfl, hannounces _ (subset_append_right _ _), hannounces _ (subset_append_left _ _)⟩

end

end

namespace GraphReadDependencies

variable {V : Type*} [Ord V] [TransOrd V] [CowPageWeight V] [TypeSizes]
  {deps : GraphReadDependencies V} {key : VersionKey V}

def Covers (deps : GraphReadDependencies V) (key : VersionKey V) : Prop :=
  deps.keys.containsKey .database ∨ deps.keys.containsKey key ∨
    ∃ scope, key.coveringScope = some scope ∧ deps.keys.containsKey scope

lemma record_spec (h : (deps.record key).1.refused = false) :
    deps.refused = false ∧ (deps.record key).1.Covers key ∧
      (∀ k, deps.keys.containsKey k → (deps.record key).1.keys.containsKey k) ∧
      (deps.record key).1.sourceEpoch = deps.sourceEpoch := by
  unfold record at h ⊢
  split_ifs at h ⊢ with hdatabase hscope
  · rw [Bool.and_eq_true] at hdatabase
    exact ⟨h, .inl hdatabase.2, fun _ hk => hk, rfl⟩
  · rw [Bool.and_eq_true, Option.any_eq_true_iff_get] at hscope
    obtain ⟨-, hsome, hcontains⟩ := hscope
    exact ⟨h, .inr (.inr ⟨_, (Option.some_get hsome).symm, hcontains⟩), fun _ hk => hk, rfl⟩
  · split at h
    · rename_i hrecord
      obtain ⟨hkey, hkeep⟩ := VersionWriteSet.record_spec hrecord
      exact ⟨h, .inr (.inl hkey), hkeep, rfl⟩
    · cases h

omit [TransOrd V] [CowPageWeight V] [TypeSizes] in
lemma Covers.mono {deps' : GraphReadDependencies V} (h : deps.Covers key)
    (hkeep : ∀ k, deps.keys.containsKey k → deps'.keys.containsKey k) :
    deps'.Covers key :=
  h.imp (hkeep _) (Or.imp (hkeep _) fun ⟨scope, hscope, hcontains⟩ =>
    ⟨scope, hscope, hkeep _ hcontains⟩)

lemma recordAll_spec : ∀ {keys} {deps : GraphReadDependencies V},
    (deps.recordAll keys).refused = false → (∀ key ∈ keys, (deps.recordAll keys).Covers key) ∧
        (∀ k, deps.keys.containsKey k → (deps.recordAll keys).keys.containsKey k) ∧
        (deps.recordAll keys).sourceEpoch = deps.sourceEpoch ∧ deps.refused = false
  | [], _, h => ⟨fun _ hk => absurd hk not_mem_nil, fun _ hk => hk, rfl, h⟩
  | key :: keys, deps, h => by
    have h' : ((deps.record key).1.recordAll keys).refused = false := h
    obtain ⟨hcovers, hkeep, hepoch, hrefused⟩ := recordAll_spec h'
    obtain ⟨hrefused', hkey, hkeep', hepoch'⟩ := record_spec hrefused
    refine ⟨fun k hk => ?_, fun k hk => hkeep k (hkeep' k hk), hepoch.trans hepoch', hrefused'⟩
    rcases mem_cons.1 hk with rfl | hk
    · exact hkey.mono hkeep
    · exact hcovers k hk

end GraphReadDependencies

namespace GraphStore

variable {V : Type*} [Ord V] {store : GraphStore V} {captured : GraphReadDependencies V}

lemma of_validateReadDependencies (h : store.validateReadDependencies captured = .ok ()) :
    captured.refused = false ∧
      (captured.keys.containsKey .database → store.versions.commitEpoch = captured.sourceEpoch) ∧
      ∀ key ∈ validationKeys captured, ∀ stamp,
        store.versions.versionIndex.stamp key = some stamp →
          stamp.commitEpoch ≤ captured.sourceEpoch := by
  unfold validateReadDependencies at h
  rcases husable : store.ensureUsable with e | ⟨⟩
  · rw [husable] at h
    cases h
  rw [husable] at h
  dsimp only at h
  split_ifs at h with hsource hrefused hdatabase
  refine ⟨Bool.eq_false_iff.2 hrefused, fun hcontains => ?_, fun key hkey stamp hstamp => ?_⟩
  · simpa [hcontains] using hdatabase
  · split at h
    · cases h
    · rename_i hnone
      have hkeyNone := findSome?_eq_none_iff.1 hnone key hkey
      rw [hstamp, Option.bind_some] at hkeyNone
      split_ifs at hkeyNone with hlt
      exact not_lt.1 hlt

end GraphStore

namespace GraphRun

variable {V : Type*} [Ord V] [CowPageWeight V] [TypeSizes] {s : GraphRun V}
  {history : List (CommitRecord V)} {own : Option ℕ} {key : VersionKey V}

/-- A canonical store that tracks a history, while one reader besides the others may be registered
at an epoch of its own. -/
structure Sound (s : GraphRun V) (history : List (CommitRecord V)) (own : Option ℕ) : Prop where
  tracks : s.state.store.versions.Tracks history own
  canonical : s.state.store.versionSnapshotPin = none
  readers : s.captures.length + own.toList.length ≤ s.state.store.readDependencyReaders
  pins : ∀ e, s.snapshots.count e + s.captures.count e + own.toList.count e ≤
    s.state.store.versions.versionSnapshotPins.count e
  wf : s.state.WF

lemma Sound.readers_pos (h : s.Sound history own) (hown : own.isSome) :
    0 < s.state.store.readDependencyReaders := by
  obtain ⟨e, rfl⟩ := Option.isSome_iff_exists.1 hown
  have := h.readers
  simp only [Option.toList_some, length_singleton] at this
  omega

lemma Sound.own_le (h : s.Sound history own) (he : e ∈ own) :
    e ≤ s.state.store.versions.commitEpoch :=
  h.tracks.pins e (h.tracks.pinned e he)

/-- What an event may do: the commits it adds, and what follows for a scope they do not stamp. -/
structure Steps (s t : GraphRun V) (history : List (CommitRecord V)) (own : Option ℕ)
    (key : VersionKey V) (records : List (CommitRecord V)) : Prop where
  sound : t.Sound (records ++ history) own
  extended : s.state.catalog.Extends t.state.catalog
  later : ∀ r ∈ records, ∀ e ∈ own, e < r.epoch
  preserves : own.isSome → (∀ r ∈ records, key ∉ r.keys ∧ .database ∉ r.keys) →
    GraphState.Preserves key s.state t.state

lemma Steps.of_graph {t : GraphRun V} (hsound : t.Sound history own)
    (hgraph : t.state.store.graph = s.state.store.graph)
    (hcatalog : t.state.catalog = s.state.catalog) : Steps s t history own key [] where
  sound := hsound
  extended := hcatalog ▸ .refl _
  later _ hr := absurd hr not_mem_nil
  preserves _ _ := .of_graph hgraph

lemma Sound.with_pins (h : s.Sound history own) {pins : VersionSnapshotPins} {readers : ℕ}
    {snapshots captures : List ℕ}
    (hpins : ∀ e, (pins.get e).isSome → e ≤ s.state.store.versions.commitEpoch)
    (hcount : ∀ e, snapshots.count e + captures.count e + own.toList.count e ≤ pins.count e)
    (hreaders : captures.length + own.toList.length ≤ readers) :
    Sound ⟨⟨{ s.state.store with
      readDependencyReaders := readers
      versions := { s.state.store.versions with versionSnapshotPins := pins } }, s.state.catalog⟩,
      snapshots, captures⟩ history own where
  tracks := h.tracks.with_pins hpins
    (fun e he => isSome_of_count_pos (lt_of_lt_of_le (by
      obtain rfl := Option.mem_def.1 he
      simp) (hcount e))) fun e he => .inl he
  canonical := h.canonical
  readers := hreaders
  pins := hcount
  wf := h.wf.extends rfl (.refl _)

lemma Sound.with_versions (h : s.Sound history own) {versions : VersionStore V}
    (htracks : versions.Tracks records own)
    (hpins : versions.versionSnapshotPins = s.state.store.versions.versionSnapshotPins) :
    (s.withVersions versions).Sound records own where
  tracks := htracks
  canonical := h.canonical
  readers := h.readers
  pins e := (h.pins e).trans_eq (by rw [← hpins]; rfl)
  wf := h.wf.extends rfl (.refl _)

lemma Sound.applyBatch (h : s.Sound history own)
    (hext : s.state.catalog.Extends catalog) (ops : WalOps V) :
    Sound ⟨GraphState.applyWalOps ⟨s.state.store, catalog⟩ ops, s.snapshots, s.captures⟩ history
      own := by
  obtain ⟨hversions, hpin, -, hreaders⟩ := GraphState.applyWalOps_store ⟨s.state.store, catalog⟩ ops
  have hwf : GraphState.WF ⟨s.state.store, catalog⟩ := h.wf.extends rfl hext
  exact ⟨hversions.symm ▸ h.tracks, hpin.trans h.canonical, h.readers.trans_eq hreaders.symm,
    fun e => (h.pins e).trans_eq (by rw [hversions]), hwf.applyWalOps ops⟩

omit [CowPageWeight V] [TypeSizes] in
lemma captureReadDependencies_spec {store store' : GraphStore V}
    (h : store.captureReadDependencies maxEntries maxBytes = .ok (deps, store')) :
    deps = ⟨store.versions.commitEpoch, .withLimits maxEntries maxBytes, false, store.readersId⟩ ∧
      store' = { store with
        readDependencyReaders := store.readDependencyReaders + 1
        versions := { store.versions with versionSnapshotPins :=
          store.versions.versionSnapshotPins.pin store.versions.commitEpoch } } := by
  unfold GraphStore.captureReadDependencies at h
  rcases husable : store.ensureUsable with e | ⟨⟩
  · rw [husable] at h
    cases h
  rw [husable] at h
  split_ifs at h
  rcases hreaders : checkedAdd store.readDependencyReaders 1 with _ | readers
  · rw [hreaders] at h
    cases h
  rw [hreaders] at h
  obtain ⟨rfl, -⟩ := checkedAdd_eq_some.1 hreaders
  cases h
  exact ⟨rfl, rfl⟩

lemma Sound.pin_le (h : s.Sound history own) (hepoch : epoch ≤ s.state.store.versions.commitEpoch)
    (he : ((s.state.store.versions.versionSnapshotPins.pin epoch).get e).isSome) :
    e ≤ s.state.store.versions.commitEpoch := by
  rcases get_pin_isSome he with rfl | he
  · exact hepoch
  · exact h.tracks.pins e he

lemma Sound.unpin_le (h : s.Sound history own)
    (he : ((s.state.store.versions.versionSnapshotPins.unpin epoch).get e).isSome) :
    e ≤ s.state.store.versions.commitEpoch :=
  h.tracks.pins e (get_unpin_isSome he)

section

variable [TransOrd V] [GraphValue V]

lemma Sound.snapshot (h : s.Sound history own) (inherited : Option ℕ) :
    (s.step (.snapshot inherited)).Sound history own := by
  refine h.with_pins (fun e he => h.pin_le (VersionStore.snapshotEpoch_le _ inherited) he)
    (fun e => ?_) h.readers
  have hpins := h.pins e
  rw [count_pin, count_cons]
  simp only [beq_iff_eq, withVersions]
  omega

lemma Sound.capture (h : s.Sound history own) (maxEntries maxBytes : ℕ) :
    (s.step (.capture maxEntries maxBytes)).Sound history own := by
  simp only [step]
  split
  · exact h
  rename_i deps store hcapture
  obtain ⟨rfl, rfl⟩ := captureReadDependencies_spec hcapture
  have hreaders := h.readers
  refine h.with_pins (fun e he => h.pin_le le_rfl he) (fun e => ?_) (by rw [length_cons]; omega)
  have hpins := h.pins e
  rw [count_pin, count_cons]
  simp only [beq_iff_eq, withStore]
  omega

lemma Sound.drop (h : s.Sound history own) (epoch : ℕ) :
    (s.step (.dropSnapshot epoch)).Sound history own ∧
      (s.step (.dropCapture epoch)).Sound history own := by
  simp only [step]
  constructor
  all_goals
    split_ifs with hmem
    · have hreaders := h.readers
      have hlength := length_erase_of_mem hmem
      have hpos := length_pos_of_mem hmem
      refine h.with_pins (fun e he => h.unpin_le he) (fun e => ?_)
        (by first | exact hreaders | omega)
      have hpins := h.pins e
      have hcount := count_pos_iff.2 hmem
      rw [count_unpin, count_erase]
      simp only [beq_iff_eq, withVersions, withStore]
      split_ifs with heq
      · subst heq
        omega
      · omega
    · exact h

end

section

variable [TransOrd V] [GraphValue V] [LawfulGraphValue V]

lemma preserves_applyWalOps {state : GraphState V} (hwf : state.WF) {batch : GraphBatch V}
    (hstaged : batch.isStagedOn state) (hcanonical : state.store.versionSnapshotPin = none)
    (hreaders : 0 < state.store.readDependencyReaders) (hwatch : state.catalog.Watches key)
    (hsummary : key.isReadSummaryKey) (hrequest : state.store.commitRequest batch = .ok request)
    (hkey : ¬VersionStore.Announces request key)
    (hdatabase : ¬VersionStore.Announces request .database) : GraphState.Preserves key state
      (GraphState.applyWalOps ⟨state.store, batch.workingCatalog⟩ batch.ops) := by
  obtain ⟨hext, hfresh⟩ := (Bool.and_eq_true _ _).mp hstaged
  rw [Catalog.isExtendedBy_iff] at hext
  rw [all_eq_true] at hfresh
  obtain ⟨rels, hrels, hnotRels, hnotNodes⟩ :=
    GraphStore.not_stamped_of_not_announces hrequest hcanonical hreaders hsummary hkey
  have hwrites : request.writes.containsKey .database = false :=
    Bool.eq_false_iff.2 fun h => hdatabase (.inl h)
  have hwf' : GraphState.WF ⟨state.store, batch.workingCatalog⟩ := hwf.extends rfl hext
  have hbatch : GraphState.Preserves key ⟨state.store, batch.workingCatalog⟩
      (GraphState.applyWalOps ⟨state.store, batch.workingCatalog⟩ batch.ops) :=
    ⟨nodes_unchanged_of_not_stamped _ _ hwf'.nodes (hwatch.extends hext) hfresh hnotNodes,
      rels_unchanged_of_not_stamped _ _ hwrites hfresh hrels hnotRels⟩
  have hcatalog : GraphState.Preserves key state ⟨state.store, batch.workingCatalog⟩ := .of_graph rfl
  exact hcatalog.trans hbatch hwf hwf' hext (GraphState.extends_applyWalOps _ _)

lemma Sound.commit (h : s.Sound history own) (hwatch : own.isSome → s.state.catalog.Watches key)
    (hsummary : key.isReadSummaryKey) (env : GraphCommitEnv) {batch : GraphBatch V}
    (hstaged : batch.isStagedOn s.state) :
    ∃ records, Steps s { s with state := (s.state.commit env batch).1 } history own key records := by
  classical
  rcases s.state.commit_cases env batch with heq | ⟨request, hrequest, hresult⟩
  · rw [heq]
    exact ⟨[], .of_graph h rfl rfl⟩
  have hext := Catalog.isExtendedBy_iff.1 ((Bool.and_eq_true _ _).mp hstaged).1
  have hpins := s.state.store.versions.commit_pins env.versions request
  have hkeys : ∀ k ∈ [key, .database].filter fun k => decide (VersionStore.Announces request k),
      VersionStore.Announces request k := fun k hk => of_decide_eq_true (mem_filter.1 hk).2
  have hcommit := h.tracks.commit env.versions hkeys
  rcases hc : s.state.store.versions.commit env.versions request with ⟨versions, e | epoch⟩
  · rw [hc] at hresult hcommit hpins
    rw [hresult]
    exact ⟨[], .of_graph (h.with_versions hcommit.2 hpins) rfl rfl⟩
  rw [hc] at hresult hcommit hpins
  obtain ⟨hepoch, -, -, htracks⟩ := hcommit
  rw [hresult]
  refine ⟨[_], (h.with_versions htracks hpins).applyBatch hext batch.ops,
    hext.trans (GraphState.extends_applyWalOps
      ⟨(s.withVersions versions).state.store, batch.workingCatalog⟩ _),
    fun r hr e he => ?_, fun hown hrecords => ?_⟩
  · rw [mem_singleton.1 hr]
    exact (h.own_le he).trans_lt (Nat.lt_of_succ_le hepoch.le)
  · obtain ⟨hkey, hdatabase⟩ := hrecords _ mem_cons_self
    have hbatch := preserves_applyWalOps h.wf hstaged h.canonical (h.readers_pos hown)
      (hwatch hown) hsummary hrequest
      (fun ha => hkey (mem_filter.2 ⟨mem_cons_self, decide_eq_true ha⟩))
      (fun ha => hdatabase (mem_filter.2 ⟨mem_cons_of_mem _ mem_cons_self, decide_eq_true ha⟩))
    -- the stamps that are installed do not change what is applied
    have hwf' : GraphState.WF ⟨s.state.store, batch.workingCatalog⟩ := h.wf.extends rfl hext
    have hsame : (GraphState.mk (s.withVersions versions).state.store
          batch.workingCatalog).store.graph =
        (GraphState.mk s.state.store batch.workingCatalog).store.graph := rfl
    obtain ⟨hgraph, hcatalog⟩ := GraphState.applyWalOps_congr hsame rfl batch.ops
    exact hbatch.trans (.of_graph hgraph) h.wf (hwf'.applyWalOps _)
      (hext.trans (GraphState.extends_applyWalOps ⟨s.state.store, batch.workingCatalog⟩ _))
      (hcatalog ▸ .refl _)

omit [LawfulGraphValue V] in
/-- Writes that stamp the whole database instead. -/
theorem Sound.commitNonRelational (h : s.Sound history own) (ops : WalOps V) :
    ∃ records, Steps s (s.step (.commitNonRelational ops)) history own key records := by
  have hext := s.state.extends_applyWalOps ops
  have hbatch := h.applyBatch (.refl _) ops
  refine ⟨[_], hbatch.with_versions hbatch.tracks.finishNonRelationalCommit rfl, hext,
    fun r hr e he => ?_, fun _ hrecords => ?_⟩
  · rw [mem_singleton.1 hr]
    exact Nat.lt_succ_of_le (hbatch.own_le he)
  · exact absurd mem_cons_self (hrecords _ mem_cons_self).2

omit [TransOrd V] [GraphValue V] [LawfulGraphValue V] in
lemma Sound.pruneWith (h : s.Sound history own)
    (hindex : s.state.store.versions.versionIndex.Reclaims oldestReaderEpoch index) :
    Steps s (s.pruneWith oldestReaderEpoch index) history own key [] := by
  unfold GraphRun.pruneWith
  dsimp only
  split_ifs with hle
  · exact .of_graph (h.with_versions (h.tracks.reclaims hle hindex) rfl) rfl rfl
  · exact .of_graph h rfl rfl

lemma Sound.step (h : s.Sound history own) (hwatch : own.isSome → s.state.catalog.Watches key)
    (hsummary : key.isReadSummaryKey) (event : GraphEvent V) :
    ∃ records, Steps s (s.step event) history own key records := by
  cases event with
  | snapshot inherited => exact ⟨[], .of_graph (h.snapshot inherited) rfl rfl⟩
  | dropSnapshot epoch =>
    refine ⟨[], .of_graph (h.drop epoch).1 ?_ ?_⟩ <;>
    · simp only [GraphRun.step]
      split_ifs <;> rfl
  | capture maxEntries maxBytes =>
    refine ⟨[], .of_graph (h.capture maxEntries maxBytes) ?_ ?_⟩ <;>
    · simp only [GraphRun.step]
      split
      · rfl
      · rename_i hcapture
        obtain ⟨-, rfl⟩ := captureReadDependencies_spec hcapture
        rfl
  | dropCapture epoch =>
    refine ⟨[], .of_graph (h.drop epoch).2 ?_ ?_⟩ <;>
    · simp only [GraphRun.step]
      split_ifs <;> rfl
  | commit env batch =>
    simp only [GraphRun.step]
    split_ifs with hstaged
    · exact h.commit hwatch hsummary env hstaged
    · exact ⟨[], .of_graph h rfl rfl⟩
  | commitNonRelational ops => exact h.commitNonRelational ops
  | reclaimVersionHistory env =>
    exact ⟨[], .of_graph (h.with_versions (h.tracks.reclaimVersionHistory env) rfl) rfl rfl⟩
  | pruneBefore env oldestReaderEpoch =>
    exact ⟨[], h.pruneWith (VersionIndex.pruneBefore_reclaims h.tracks.index.wf env _)⟩
  | pruneTombstonesBefore env oldestReaderEpoch =>
    exact ⟨[], h.pruneWith (VersionIndex.pruneTombstonesBefore_reclaims h.tracks.index.wf env _)⟩
  | poison error =>
    exact ⟨[], .of_graph ⟨h.tracks, h.canonical, h.readers, h.pins, h.wf.extends rfl (.refl _)⟩
      rfl rfl⟩

lemma Sound.run (hsummary : key.isReadSummaryKey) : ∀ (events : List (GraphEvent V))
    {s : GraphRun V} {history : List (CommitRecord V)}, s.Sound history own →
      (own.isSome → s.state.catalog.Watches key) →
      ∃ records, Steps s (events.foldl GraphRun.step s) history own key records
  | [], _, _, h, _ => ⟨[], .of_graph h rfl rfl⟩
  | event :: events, s, history, h, hwatch => by
    obtain ⟨first, hfirst⟩ := h.step hwatch hsummary event
    obtain ⟨rest, hrest⟩ := Sound.run hsummary events hfirst.sound
      fun hown => (hwatch hown).extends hfirst.extended
    refine ⟨rest ++ first, ?_, hfirst.extended.trans hrest.extended, fun r hr => ?_,
      fun hown hrecords => ?_⟩
    · rw [append_assoc]
      exact hrest.sound
    · exact (mem_append.1 hr).elim (hrest.later r) (hfirst.later r)
    · exact (hfirst.preserves hown fun r hr => hrecords r (mem_append_right _ hr)).trans
        (hrest.preserves hown fun r hr => hrecords r (mem_append_left _ hr))
        h.wf hfirst.sound.wf hfirst.extended hrest.extended

omit [GraphValue V] [LawfulGraphValue V] in
lemma Steps.preserves_of_contains {t : GraphRun V}
    (h : Steps s t history (some e) key records) (hsummary : key.isReadSummaryKey)
    {captured : GraphReadDependencies V} (hepoch : captured.sourceEpoch = e)
    (hcontains : captured.keys.containsKey .database ∨ captured.keys.containsKey key)
    (hvalid : t.state.store.validateReadDependencies captured = .ok ()) :
    GraphState.Preserves key s.state t.state := by
  obtain ⟨-, hdatabase, hstamps⟩ := GraphStore.of_validateReadDependencies hvalid
  rw [hepoch] at hdatabase hstamps
  have htracks := h.sound.tracks
  refine h.preserves rfl fun r hr => ?_
  have hmem : r ∈ records ++ history := mem_append_left _ hr
  have hlater := h.later r hr e rfl
  -- a stamp of the commit would be later than the epoch of the capture
  have hstamp : ∀ k, k ∈ r.keys → StampedSince t.state.store.versions.versionIndex.stamp r.epoch k :=
    htracks.index.covers r hmem ((htracks.floor e rfl).trans_lt hlater)
  have hlate : ∀ {k stamp}, k ∈ GraphStore.validationKeys captured →
      t.state.store.versions.versionIndex.stamp k = some stamp → r.epoch ≤ stamp.commitEpoch →
      False := fun hk hs hle => by
    have := hstamps _ hk _ hs
    omega
  constructor
  · intro hkey
    rcases hcontains with hdb | hcontains
    · have := htracks.last r hmem
      have := hdatabase hdb
      omega
    obtain ⟨e', he', heq⟩ := findEntry_isSome_iff.1 (by
      rw [← Option.isSome_map]
      exact hcontains)
    have hcaptured : e'.1 ∈ captured.keys.keys := mem_map_of_mem he'
    rcases hstamp key hkey with ⟨stamp, hs, hle⟩ | ⟨-, stamp, hs, hle⟩
    · rw [← VersionIndex.stamp_congr htracks.index.wf heq] at hs
      exact hlate (mem_append_left _ (mem_append_left _ hcaptured)) hs hle
    refine hlate (mem_append_right _ ?_) hs hle
    rw [if_pos (any_eq_true.2 ⟨e'.1, hcaptured, by
      rw [VersionKey.isReadSummaryKey_eq_of_compare heq, hsummary]⟩)]
    exact mem_cons_self
  · intro hkey
    rcases hstamp .database hkey with ⟨stamp, hs, hle⟩ | ⟨hsum, -⟩
    · exact hlate (mem_append_left _ (mem_append_right _ mem_cons_self)) hs hle
    · cases hsum

omit [TransOrd V] [GraphValue V] [LawfulGraphValue V] in
lemma sound_opened {base : Option (CanonicalBase V)}
    (hbase : (opened epoch maxEstimatedBytes maxHistoryBytes readersId base catalog).state.WF) :
    (opened epoch maxEstimatedBytes maxHistoryBytes readersId base catalog).Sound [] none :=
  ⟨VersionStore.tracks_new _ _ _, rfl, le_rfl, fun _ => Nat.zero_le _, hbase⟩

omit [TransOrd V] [GraphValue V] [LawfulGraphValue V] in
lemma Sound.register (h : s.Sound history none) {deps : GraphReadDependencies V}
    (hcapture : s.state.store.captureReadDependencies maxEntries maxBytes = .ok (deps, store)) :
    (s.withStore store).Sound history (some deps.sourceEpoch) := by
  obtain ⟨rfl, rfl⟩ := captureReadDependencies_spec hcapture
  have hcount : ∀ e, (pin s.state.store.versions.versionSnapshotPins
      s.state.store.versions.commitEpoch).count e =
        s.state.store.versions.versionSnapshotPins.count e +
          if s.state.store.versions.commitEpoch = e then 1 else 0 := fun e =>
    count_pin _
  refine ⟨h.tracks.with_pins (fun e he => h.pin_le le_rfl he) (fun e he => ?_) fun e he =>
    .inr (Option.mem_some_iff.1 he).symm, h.canonical, ?_, fun e => ?_, h.wf.extends rfl (.refl _)⟩
  · rw [← Option.mem_some_iff.1 he]
    exact isSome_of_count_pos (by rw [hcount, if_pos rfl]; omega)
  · have := h.readers
    simpa [withStore] using this
  · have hpins := h.pins e
    simp only [withStore, Option.toList_some, Option.toList_none, count_nil,
      count_singleton, beq_iff_eq, hcount] at hpins ⊢
    omega

/-- Reads that were captured and validate later have not changed, under a catalog that has only been
added to. This holds of domains, and of exact keys for which a scalar index is declared. -/
theorem read_dependencies_sound (epoch maxEstimatedBytes maxHistoryBytes readersId : ℕ)
    (base : Option (CanonicalBase V)) (catalog : Catalog)
    (hbase : (opened epoch maxEstimatedBytes maxHistoryBytes readersId base catalog).state.WF)
    (before after : List (GraphEvent V)) (maxEntries maxBytes : ℕ) (deps : GraphReadDependencies V)
    (store : GraphStore V) (keys : List (VersionKey V)) :
    let s := before.foldl step
      (opened epoch maxEstimatedBytes maxHistoryBytes readersId base catalog)
    let t := after.foldl step (s.withStore store)
    s.state.store.captureReadDependencies maxEntries maxBytes = .ok (deps, store) →
    t.state.store.validateReadDependencies (deps.recordAll keys) = .ok () →
    s.state.catalog.Extends t.state.catalog ∧
      ∀ key ∈ keys, s.state.catalog.Watches key →
        t.state.nodesIn key = s.state.nodesIn key ∧ t.state.relsIn key = s.state.relsIn key := by
  intro s t hcapture hvalid
  obtain ⟨hrefused, -, -⟩ := GraphStore.of_validateReadDependencies hvalid
  obtain ⟨hcovers, -, hepoch, -⟩ := GraphReadDependencies.recordAll_spec hrefused
  obtain ⟨history, hsteps⟩ : ∃ records, Steps _ s [] none (VersionKey.readNodeDomain none) records :=
    Sound.run rfl before (sound_opened hbase) nofun
  have hsound := hsteps.sound.register hcapture
  have hgraph : (s.withStore store).state.store.graph = s.state.store.graph := by
    obtain ⟨-, rfl⟩ := captureReadDependencies_spec hcapture
    rfl
  have hrun : ∀ key, key.isReadSummaryKey = true → s.state.catalog.Watches key →
      ∃ records, Steps (s.withStore store) t _ (some deps.sourceEpoch) key records :=
    fun key hsummary hwatch => Sound.run hsummary after hsound fun _ => hwatch
  have hext : s.state.catalog.Extends t.state.catalog := by
    obtain ⟨records, hrecords⟩ := hrun (.readNodeDomain none) rfl trivial
    exact hrecords.extended
  -- what is captured itself, or with the whole database
  have hscope : ∀ key, key.isReadSummaryKey = true → s.state.catalog.Watches key →
      ((deps.recordAll keys).keys.containsKey .database = true ∨
        (deps.recordAll keys).keys.containsKey key = true) →
      t.state.nodesIn key = s.state.nodesIn key ∧ t.state.relsIn key = s.state.relsIn key := by
    intro key hsummary hwatch hcontains
    obtain ⟨records, hrecords⟩ := hrun key hsummary hwatch
    have hpreserves := GraphState.Preserves.trans (.of_graph hgraph)
      (hrecords.preserves_of_contains hsummary hepoch hcontains hvalid) hsteps.sound.wf hsound.wf
      (.refl _) hext
    exact ⟨hpreserves.nodesIn_eq hsteps.sound.wf hext, hpreserves.relsIn_eq hsteps.sound.wf hext⟩
  refine ⟨hext, fun key hkey hwatch => ?_⟩
  have hempty : (∀ c (node : NodeRecord V), ¬node.InScope c key) →
      (∀ c (rel : RelRecord V), ¬rel.InScope c key) →
      t.state.nodesIn key = s.state.nodesIn key ∧ t.state.relsIn key = s.state.relsIn key :=
    fun hnodes hrels =>
      ⟨Set.ext fun e => ⟨fun he => absurd he.2 (hnodes _ _), fun he => absurd he.2 (hnodes _ _)⟩,
        Set.ext fun e => ⟨fun he => absurd he.2 (hrels _ _), fun he => absurd he.2 (hrels _ _)⟩⟩
  cases key with
  | readNodeDomain label | readRelationshipDomain kind =>
    refine hscope _ rfl hwatch ((hcovers _ hkey).imp_right (Or.resolve_right · ?_))
    exact fun ⟨scope, hnone, _⟩ => nomatch hnone
  | readNodeProperty label property value =>
    rcases hcovers _ hkey with hdatabase | hcontains | ⟨scope, hcovering, hcontains⟩
    · exact hscope _ rfl hwatch (.inl hdatabase)
    · exact hscope _ rfl hwatch (.inr hcontains)
    · cases hcovering
      exact ⟨GraphState.nodesIn_readNodeProperty
          (hscope (.readNodeDomain (some label)) rfl trivial (.inr hcontains)).1,
        Set.ext fun e => ⟨fun he => he.2.elim, fun he => he.2.elim⟩⟩
  | _ => exact hempty (fun _ _ h => h) fun _ _ h => h

end

end GraphRun

instance : LawfulGraphValue Value where
  isCollection_eq {a b} h := by
    have hrank := Value.kindRank_eq_of_eq h
    rcases a with a | vs | es <;> rcases b with b | ws | fs <;>
      first
      | rfl
      | exact absurd hrank (Scalar.kindRank_ne a).1
      | exact absurd hrank (Scalar.kindRank_ne a).2
      | exact absurd hrank.symm (Scalar.kindRank_ne b).1
      | exact absurd hrank.symm (Scalar.kindRank_ne b).2
  cowPageBytes_eq {a b} h ha := by
    have hrank := Value.kindRank_eq_of_eq h
    rcases a with a | vs | es
    · rcases b with b | ws | fs
      · have hsame : a.cmpSameKind b = .eq := (Ordering.then_eq_eq.1 h).2
        rcases a with _ | x | x | x | x | x | x | x | x | (x | x | x | x | x) <;>
          rcases b with _ | y | y | y | y | y | y | y | y | (y | y | y | y | y) <;>
          first
          | rfl
          | exact congrArg length (Std.LawfulEqOrd.eq_of_compare hsame)
          | simp [Value.kindRank, Scalar.kindRank] at hrank
      · exact absurd hrank (Scalar.kindRank_ne a).1
      · exact absurd hrank (Scalar.kindRank_ne a).2
    · cases ha
    · cases ha

/-! ### Nodes with the value 7 -/

namespace GraphRun

local instance wordSizes : TypeSizes := ⟨136, 24, 24, 40, 56, 80, 16, 1, 32⟩

def accepting : HistoryEnv := ⟨0, fun _ _ => true⟩

def labelled (indexes : List IndexDescriptor) : Catalog :=
  ⟨⟨["A"], by decide⟩, ⟨[], by decide⟩, indexes⟩

def committing (catalog : Catalog) (op : WalOp Value) : GraphEvent Value :=
  .commit ⟨.ok (), ⟨accepting, accepting, accepting, accepting, .ok ()⟩⟩
    ⟨.op op .nil, catalog, none⟩

def creating (catalog : Catalog) (id : ℕ) (value : Int64) : GraphEvent Value :=
  committing catalog (.createNode id "A" (OrdMap.empty.insert "p" (.leaf (.int value))))

def withSeven (catalog : Catalog) : GraphRun Value :=
  [creating catalog 0 7].foldl step (opened 0 4096 4096 0 none catalog)

def sevens : VersionKey Value := .readNodeProperty "A" "p" (.leaf (.int 7))

lemma exists_captured (catalog : Catalog)
    (h : ((withSeven catalog).state.store.captureReadDependencies 8 4096).toOption.isSome = true) :
    ∃ deps store, (withSeven catalog).state.store.captureReadDependencies 8 4096 =
      .ok (deps, store) := by
  obtain ⟨⟨deps, store⟩, hsome⟩ := Option.isSome_iff_exists.1 h
  exact ⟨deps, store, toOption_eq_some_iff.1 hsome⟩

/-- Another node with another value leaves the captured nodes as they are. -/
theorem read_dependencies_sound_otherValue :
    let catalog := labelled [⟨0, "p", .equality⟩]
    ∃ deps store, (withSeven catalog).state.store.captureReadDependencies 8 4096 =
        .ok (deps, store) ∧
      let t := [creating catalog 1 8, .reclaimVersionHistory accepting].foldl step
        ((withSeven catalog).withStore store)
      (t.state.store.validateReadDependencies (deps.recordAll [sevens])).toOption = some () ∧
        t.state.nodesIn sevens = (withSeven catalog).state.nodesIn sevens := by
  intro catalog
  obtain ⟨deps, store, hcapture⟩ := exists_captured catalog (by decide +kernel)
  have hkey : (withSeven catalog).state.catalog.Watches sevens :=
    ⟨by decide +kernel, ⟨0, "p", .equality⟩, by decide +kernel, by decide +kernel, rfl, nofun⟩
  refine ⟨deps, store, hcapture, ?_⟩
  intro t
  have hvalid : (t.state.store.validateReadDependencies (deps.recordAll [sevens])).toOption =
      some () := by
    obtain ⟨rfl, rfl⟩ := captureReadDependencies_spec hcapture
    decide +kernel
  have hbase : (opened 0 4096 4096 0 none catalog : GraphRun Value).state.WF := ⟨nofun, nofun⟩
  have hsound : ∀ (before after : List (GraphEvent Value)) (u v : GraphRun Value),
      u = before.foldl step (opened 0 4096 4096 0 none catalog) →
      v = after.foldl step (u.withStore store) →
      u.state.store.captureReadDependencies 8 4096 = .ok (deps, store) →
      v.state.store.validateReadDependencies (deps.recordAll [sevens]) = .ok () →
      u.state.catalog.Watches sevens → v.state.nodesIn sevens = u.state.nodesIn sevens := by
    rintro before after u v rfl rfl hcapture hvalid hkey
    exact ((read_dependencies_sound 0 4096 4096 0 none catalog hbase before after 8 4096 deps store
      [sevens] hcapture hvalid).2 sevens mem_cons_self hkey).1
  exact ⟨hvalid, hsound _ _ _ t rfl rfl hcapture (toOption_eq_some_iff.1 hvalid) hkey⟩

/-- Without an index the value of a captured exact key changes unseen. -/
theorem read_dependencies_unsound_unindexed :
    (nodePropertyReadKey "A" "p" (.leaf (.int 7) : Value)).isSome = true ∧
    ∃ deps store, (withSeven (labelled [])).state.store.captureReadDependencies 8 4096 =
        .ok (deps, store) ∧
      let t := [committing (labelled []) (.setNodeProperty 0 "p" (.leaf (.int 8)))].foldl step
        ((withSeven (labelled [])).withStore store)
      t.state.store.validateReadDependencies (deps.recordAll [sevens]) = .ok () ∧
        t.state.nodesIn sevens ≠ (withSeven (labelled [])).state.nodesIn sevens := by
  obtain ⟨deps, store, hcapture⟩ := exists_captured (labelled []) (by decide +kernel)
  refine ⟨by decide +kernel, deps, store, hcapture, ?_⟩
  obtain ⟨rfl, rfl⟩ := captureReadDependencies_spec hcapture
  intro t
  have hbefore : ((withSeven (labelled [])).state.store.nodeOwned 0).any fun node =>
      node.labels = [0] ∧ (node.properties.get "p").any (·.eq (.leaf (.int 7))) := by
    decide +kernel
  have hafter : (t.state.store.nodeOwned 0).any fun node =>
      (node.properties.get "p").all (!·.eq (.leaf (.int 7))) := by
    decide +kernel
  refine ⟨toOption_eq_some_iff.1 (by decide +kernel), fun heq => ?_⟩
  obtain ⟨node, hnode, hfields⟩ := (Option.any_eq_true _ _).1 hbefore
  obtain ⟨hlabels, hvalue⟩ := of_decide_eq_true hfields
  obtain ⟨v, hget, hv⟩ := (Option.any_eq_true _ _).1 hvalue
  have hmem : (0, node) ∈ (withSeven (labelled [])).state.nodesIn sevens :=
    ⟨hnode, ⟨0, hlabels ▸ mem_cons_self, by decide +kernel⟩, v, hget, Value.eq_iff.1 hv⟩
  rw [← heq] at hmem
  rw [hmem.1, Option.any_some, hget, Option.all_some, hv] at hafter
  cases hafter

end GraphRun

end HawDB
