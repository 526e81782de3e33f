import HawDB.VersionKey
import HawDB.Proofs.RelationalOrder

/-!
# The order of the versioned identities

The order of the constructors and then of the fields is lexicographic in the kind, the names, the
graph value, the relational key and the numbers of a key (`VersionKey.compare_eq_cmpFields`), and
so a lawful order whenever that of the graph values is.
-/

namespace HawDB

lemma compare_toList {α : Type*} [Ord α] (a b : Option α) :
    compare a.toList b.toList = compare a b := by
  cases a <;> cases b
  case some.some a b =>
    rw [Option.toList_some, Option.toList_some, compare_cons, compare_nil_nil, Ordering.then_eq]
    rfl
  all_goals rfl

namespace AdjacencyDirection

def rank : AdjacencyDirection → ℕ
  | outgoing => 0
  | incoming => 1

lemma compare_rank (a b : AdjacencyDirection) : compare a.rank b.rank = compare a b := by
  cases a <;> cases b <;> rfl

end AdjacencyDirection

namespace VersionKey

variable {V : Type*}

def kindRank : VersionKey V → ℕ
  | database => 0
  | schema => 1
  | readBarrier => 2
  | readNodeDomain _ => 3
  | readRelationshipDomain _ => 4
  | readRelationalTableDomain _ => 5
  | readNodeProperty .. => 6
  | readRelationalIndexPrefix .. => 7
  | graphNode _ => 8
  | graphRelationship _ => 9
  | graphAdjacency .. => 10
  | relationalRow .. => 11
  | relationalIndex .. => 12
  | foreignKey .. => 13
  | appendTable _ => 14

/-- The names among the fields. -/
def names : VersionKey V → List String
  | readNodeDomain label | readRelationshipDomain label => label.toList
  | readRelationalTableDomain table | relationalRow table _ | foreignKey table _
  | appendTable table => [table]
  | readNodeProperty label property _ => [label, property]
  | readRelationalIndexPrefix table index _ | relationalIndex table index _ => [table, index]
  | _ => []

def values : VersionKey V → List V
  | readNodeProperty _ _ value => [value]
  | _ => []

def relationalPart : VersionKey V → RelationalKey
  | readRelationalIndexPrefix _ _ key | relationalRow _ key | relationalIndex _ _ key
  | foreignKey _ key => key
  | _ => []

/-- The numbers among the fields. -/
def numbers : VersionKey V → List ℕ
  | graphNode id | graphRelationship id => [id]
  | graphAdjacency nodeId direction => [nodeId, direction.rank]
  | _ => []

variable [Ord V]

def cmpFields : VersionKey V → VersionKey V → Ordering :=
  compareLex (compareOn kindRank) <| compareLex (compareOn names) <|
    compareLex (compareOn values) <| compareLex (compareOn relationalPart) (compareOn numbers)

lemma compare_eq_cmpFields (a b : VersionKey V) : compare a b = cmpFields a b := by
  -- keys of different kinds are told apart by computing
  cases a <;> cases b <;> first | rfl | skip
  case' readNodeDomain.readNodeDomain a b | readRelationshipDomain.readRelationshipDomain a b |
      readRelationalTableDomain.readRelationalTableDomain a b | appendTable.appendTable a b |
      graphNode.graphNode a b | graphRelationship.graphRelationship a b =>
    change (compare a b).then .eq = _
  case' readNodeProperty.readNodeProperty a a₂ a₃ b b₂ b₃ |
      readRelationalIndexPrefix.readRelationalIndexPrefix a a₂ a₃ b b₂ b₃ |
      relationalIndex.relationalIndex a a₂ a₃ b b₂ b₃ =>
    change (compare a b).then ((compare a₂ b₂).then ((compare a₃ b₃).then .eq)) = _
  case' graphAdjacency.graphAdjacency a a₂ b b₂ | relationalRow.relationalRow a a₂ b b₂ |
      foreignKey.foreignKey a a₂ b b₂ =>
    change (compare a b).then ((compare a₂ b₂).then .eq) = _
  all_goals simp [cmpFields, compareLex, compareOn, kindRank, names, values, relationalPart, numbers,
    compare_toList, Ordering.then_assoc, AdjacencyDirection.compare_rank]

instance transOrd [Std.TransOrd V] : Std.TransOrd (VersionKey V) := by
  have hcmp : (compare : VersionKey V → VersionKey V → Ordering) = cmpFields :=
    funext fun a => funext (compare_eq_cmpFields a)
  unfold Std.TransOrd
  rw [hcmp]
  unfold cmpFields
  infer_instance

lemma kindRank_eq_of_compare {a b : VersionKey V} (h : compare a b = .eq) :
    a.kindRank = b.kindRank := by
  rw [compare_eq_cmpFields, cmpFields, compareLex_eq_eq] at h
  exact Nat.compare_eq_eq.1 h.1

omit [Ord V] in
lemma isReadSummaryKey_iff (a : VersionKey V) :
    a.isReadSummaryKey ↔ 3 ≤ a.kindRank ∧ a.kindRank ≤ 7 := by
  cases a <;> simp [isReadSummaryKey, kindRank]

lemma isReadSummaryKey_eq_of_compare {a b : VersionKey V} (h : compare a b = .eq) :
    a.isReadSummaryKey = b.isReadSummaryKey := by
  rw [Bool.eq_iff_iff, isReadSummaryKey_iff, isReadSummaryKey_iff, kindRank_eq_of_compare h]

end VersionKey

end HawDB
