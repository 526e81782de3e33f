import HawDB.VersionIndex

/-!
# The reference index

An index without limits that keeps the latest commit epoch of every key ever written and drops
nothing, and the operations on a version index carried out beside the same writes to it.
-/

namespace HawDB

/-- The latest commit epoch of every key ever written. -/
abbrev VersionReference (V : Type*) [Ord V] := OrdMap (VersionKey V) ℕ

namespace VersionReference

variable {V : Type*} [Ord V]

def firstConflict (reference : VersionReference V) (writes : VersionWriteSet V) (readEpoch : ℕ) :
    Option (VersionConflict V) :=
  writes.keys.findSome? fun key => (reference.get key).bind fun epoch =>
    if readEpoch < epoch then some ⟨key, epoch⟩ else none

variable [Std.TransOrd V]

def commit (reference : VersionReference V) (keys : List (VersionKey V)) (epoch : ℕ) :
    VersionReference V :=
  keys.foldl (fun reference key => reference.insert key epoch) reference

end VersionReference

/-- An operation on a version index. What has been staged is installed or thrown away. -/
inductive VersionOp (V : Type*) [Ord V] where
  | stage (env : HistoryEnv) (writes : VersionWriteSet V) (epoch : ℕ) (install : Bool)
  | stageWithReadBarrier (env : HistoryEnv) (writes : VersionWriteSet V) (epoch : ℕ)
      (install : Bool)
  | applyPrepared (shared : ℕ → ℕ → Bool) (writes : VersionWriteSet V) (epoch : ℕ)
  | pruneBefore (env : HistoryEnv) (oldestReaderEpoch : ℕ)
  | pruneTombstonesBefore (env : HistoryEnv) (oldestReaderEpoch : ℕ)

/-- A version index and the reference for it. -/
structure VersionPair (V : Type*) [Ord V] where
  index : VersionIndex V
  reference : VersionReference V
  /-- Whether a read barrier has been published since the last write of a key. -/
  behindBarrier : VersionKey V → Bool

namespace VersionPair

variable {V : Type*} [Ord V] [Std.TransOrd V] [CowPageWeight V] [TypeSizes]

/-- Goes on with an index to which some keys have been committed, behind a read barrier or not. -/
def commit (s : VersionPair V) (index : VersionIndex V) (keys : List (VersionKey V)) (epoch : ℕ)
    (barrier : Bool) : VersionPair V where
  index
  reference := s.reference.commit keys epoch
  behindBarrier key :=
    if keys.any fun k => compare key k = .eq then false else barrier || s.behindBarrier key

/-- Goes on with what has been staged, if it was admitted and is installed. -/
def install (s : VersionPair V) (staged : VersionIndex V × Option (VersionIndex V))
    (install : Bool) (keys : List (VersionKey V)) (epoch : ℕ) (barrier : Bool) : VersionPair V :=
  match staged, install with
  | (_, some index), true => s.commit index keys epoch barrier
  | (index, _), _ => { s with index }

def step (s : VersionPair V) : VersionOp V → VersionPair V
  | .stage env writes epoch install =>
    s.install (s.index.stage env writes epoch) install writes.keys epoch false
  | .stageWithReadBarrier env writes epoch install =>
    s.install (s.index.stageWithReadBarrier env writes epoch) install
      (writes.keys ++ [.readBarrier]) epoch true
  | .applyPrepared shared writes epoch =>
    s.commit (s.index.applyPrepared shared writes epoch) writes.keys epoch false
  | .pruneBefore env oldestReaderEpoch =>
    { s with index := s.index.pruneBefore env oldestReaderEpoch }
  | .pruneTombstonesBefore env oldestReaderEpoch =>
    { s with index := s.index.pruneTombstonesBefore env oldestReaderEpoch }

/-- Both indexes after some operations on new ones. -/
def run (maxEstimatedBytes maxHistoryBytes : ℕ) (ops : List (VersionOp V)) : VersionPair V :=
  ops.foldl step ⟨.withHistoryLimit maxEstimatedBytes maxHistoryBytes, .empty, fun _ => false⟩

end VersionPair

end HawDB
