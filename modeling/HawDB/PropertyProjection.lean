import HawDB.PropertyFilter
import HawDB.Scan

/-!
# Reading property projections

A property projection is an immutable index over the records of a checkpoint: for each definition,
entries of a value and the id of an element, in order, cut into blocks. A scan reads a block only
when its first and last value do not rule out a match.
-/

namespace HawDB

inductive ProjectionError where
  | source (message : String)
  | corrupt (message : String)
  | canonical (message : String)
  | memoryBudgetExceeded (requiredBytes maxBytes : ℕ)
  | spillBudgetExceeded (requiredBytes maxBytes : ℕ)
  | spillRunBudgetExceeded (requiredRuns maxRuns : ℕ)
  | generatedEntryBudgetExceeded (requiredEntries maxEntries : ℕ)
  | definitionCountBudgetExceeded (requiredDefinitions maxDefinitions : ℕ)
  | definitionBytesBudgetExceeded (requiredBytes maxBytes : ℕ)
  | blockTooLarge (blockBytes maxBytes : ℕ)
deriving DecidableEq, Repr

def ProjectionError.message : ProjectionError → String
  | source message => message
  | corrupt message => message
  | canonical message => message
  | memoryBudgetExceeded required max =>
    s!"property projection build requires {required} resident bytes, exceeding {max}"
  | spillBudgetExceeded required max =>
    s!"property projection build requires {required} spill bytes, exceeding {max}"
  | spillRunBudgetExceeded required max =>
    s!"property projection build requires {required} spill runs, exceeding {max}"
  | generatedEntryBudgetExceeded required max =>
    s!"property projection build requires {required} generated entries, exceeding {max}"
  | definitionCountBudgetExceeded required max =>
    s!"property projection build requires {required} definitions, exceeding {max}"
  | definitionBytesBudgetExceeded required max =>
    s!"property projection definitions require {required} resident bytes, exceeding {max}"
  | blockTooLarge bytes max =>
    s!"property projection block uses {bytes} bytes, exceeding {max}"

inductive ProjectionKind where
  | equality
  | range
  | fullText
  | compositeEquality
  | relationshipEquality
  | relationshipRange
deriving DecidableEq, Repr

/-- `kind_order_tag`, which follows the order of the kinds. -/
def ProjectionKind.orderTag : ProjectionKind → UInt8
  | equality => 1
  | range => 2
  | fullText => 3
  | compositeEquality => 4
  | relationshipEquality => 5
  | relationshipRange => 6

structure ProjectionDefinition where
  labelId : UInt32
  property : String
  kind : ProjectionKind
  complete : Bool
deriving DecidableEq

/-- A value and the id of an element that has it. -/
abbrev IndexEntry := Value × ℕ

def entryCmp (a b : IndexEntry) : Ordering := (compare a.1 b.1).then (compare a.2 b.2)

/-- A block with its descriptor. -/
structure ProjectionBlock where
  blockId : ℕ
  labelId : UInt32
  property : String
  kind : ProjectionKind
  minKey : Value
  maxKey : Value
  entries : List IndexEntry

/-- The manifest's definitions, and the descriptor tree in the order of its keys. -/
structure PropertyProjection where
  definitions : List ProjectionDefinition
  descriptors : List (Bytes × ProjectionBlock)

/-! ## Identities -/

/-- A zero byte is followed by a one, so that two zeros end a name. -/
def escapeZeros : Bytes → Bytes
  | [] => []
  | byte :: rest => if byte = 0 then 0 :: 1 :: escapeZeros rest else byte :: escapeZeros rest

def propertyProjectionDescriptorPrefix (kind : ProjectionKind) (labelId : UInt32)
    (property : String) : Bytes :=
  kind.orderTag :: (beBytes 4 labelId.toNat ++ (escapeZeros (utf8 property) ++ [0, 0]))

def ProjectionBlock.descriptorTreeKey (block : ProjectionBlock) : Bytes :=
  propertyProjectionDescriptorPrefix block.kind block.labelId block.property ++
    beBytes 8 block.blockId

def compositePropertyIdentityPrefix : Text := "hawdb-composite-property-v1".toList

/-- `u8::from_str_radix`: a plus sign may stand before a single digit. -/
def identityPair (_offset : ℕ) (high low : UInt8) : Except ProjectionError UInt8 :=
  match if high = 43 then (hexDigitValue low).map UInt8.ofNat else hexByte high low with
  | some byte => .ok byte
  | none => .error
    (.corrupt "property projection composite property identity has invalid hexadecimal data")

/-- The reason the bytes are not UTF-8 is not part of the message here. -/
def decodeUtf8Hex (text : Text) : Except ProjectionError String :=
  if (textBytes text).length % 2 ≠ 0 then .error
    (.corrupt "property projection composite property identity has an invalid hexadecimal length")
  else do
    match textOfUtf8 (← decodePairs identityPair 0 (textBytes text)) with
    | some property => .ok property
    | none => .error (.corrupt "property projection composite property identity is not UTF-8")

def decodeCompositePropertyIdentity (identity : String) : Except ProjectionError (List String) :=
  match identity.toList.dropPrefix? (compositePropertyIdentityPrefix ++ [':']) with
  | none => .error (.corrupt "composite property projection has an invalid identity prefix")
  | some encoded => do
    let properties ← (encoded.splitOn ':').mapM decodeUtf8Hex
    if properties.length < 2 then
      .error (.corrupt "composite property projection identity has fewer than two properties")
    else .ok properties

/-! ## Matches -/

def isRangeValue : Value → Bool
  | .leaf (.int _) | .leaf (.float _) | .leaf (.decimal _) | .leaf (.string _) => true
  | .leaf (.temporal value) => value.kind ≠ .duration
  | _ => false

def compositeKeyHasArity (value : Value) (arity : ℕ) : Bool :=
  match value with
  | .list values => values.length = arity
  | _ => false

def isNumericValue (value : Value) : Bool := value.logicalType.any (·.isNumeric)

/-- Both ends are of one numeric kind, and so is all between them. -/
def homogeneousNumeric : Option Value → Option Value → Bool
  | some (.leaf (.int _)), some (.leaf (.int _)) => true
  | some (.leaf (.float _)), some (.leaf (.float _)) => true
  | some (.leaf (.decimal _)), some (.leaf (.decimal _)) => true
  | _, _ => false

/-- What the last value of a block and a lower bound rule out. -/
def excludedBelow (homogeneous : Bool) (maximum : Option Value) (lower : Option (Value × Bool)) :
    Bool :=
  match lower, maximum with
  | some (lower, inclusive), some maximum =>
    (!isNumericValue maximum || homogeneous) &&
      (comparableValueOrdering maximum lower).any fun ordering =>
        ordering.isLT || (ordering.isEq && !inclusive)
  | _, _ => false

/-- What the first value of a block and an upper bound rule out. -/
def excludedAbove (homogeneous : Bool) (minimum : Option Value) (upper : Option (Value × Bool)) :
    Bool :=
  match upper, minimum with
  | some (upper, inclusive), some minimum =>
    (!isNumericValue minimum || homogeneous) &&
      (comparableValueOrdering minimum upper).any fun ordering =>
        ordering.isGT || (ordering.isEq && !inclusive)
  | _, _ => false

def rangeKeyBoundsMightMatch (minimum maximum : Option Value) (lower upper : Option (Value × Bool)) :
    Bool :=
  let homogeneous := homogeneousNumeric minimum maximum
  !excludedBelow homogeneous maximum lower && !excludedAbove homogeneous minimum upper

def rangeBlockMightMatch (lower upper : Option (Value × Bool)) (block : ProjectionBlock) : Bool :=
  rangeKeyBoundsMightMatch (some block.minKey) (some block.maxKey) lower upper

def equalityBlockMightMatch (value : Value) (block : ProjectionBlock) : Bool :=
  (compare block.minKey value).isLE && (compare value block.maxKey).isLE

/-! ## Scans -/

namespace PropertyProjection

variable {σ : Type} (projection : PropertyProjection)

/-- `manifest().supports`. The definitions are ordered by their keys, so that the one found is the
only one. -/
def supports (labelId : UInt32) (property : String) (kind : ProjectionKind) : Bool :=
  projection.definitions.any fun definition =>
    definition.kind = kind && definition.labelId = labelId && definition.property = property &&
      definition.complete

/-- `scan_prefix` of the descriptor tree. -/
def scanPrefix (bytes : Bytes) : List (Bytes × ProjectionBlock) :=
  projection.descriptors.filter fun descriptor => bytes.isPrefixOf descriptor.1

def validateDescriptor (key : Bytes) (block : ProjectionBlock) : Except ProjectionError Unit := do
  if block.entries.isEmpty || (compare block.minKey block.maxKey).isGT ||
      block.descriptorTreeKey != key then
    .error (.corrupt "property projection descriptor identity or bounds are inconsistent")
  if block.kind = .compositeEquality then
    let arity := (← decodeCompositePropertyIdentity block.property).length
    if !compositeKeyHasArity block.minKey arity || !compositeKeyHasArity block.maxKey arity then
      .error (.corrupt "property projection composite descriptor has invalid key arity")

def validateSelectedDescriptor (block : ProjectionBlock) (kind : ProjectionKind) (labelId : UInt32)
    (property : String) : Except ProjectionError Unit :=
  if block.kind ≠ kind ∨ block.labelId ≠ labelId ∨ block.property ≠ property then
    .error (.corrupt "property projection descriptor escaped its selected prefix")
  else if !projection.supports block.labelId block.property block.kind then
    .error (.corrupt s!"property projection block {block.blockId} has no complete definition")
  else .ok ()

section

variable (block : ProjectionBlock) (valueMatches : Value → Bool)
  (consumer : σ → IndexEntry → Except ProjectionError (σ × ScanControl))

/-- The loop over the entries of a block. It goes on to the end of the block when the consumer asks
to stop. -/
def decodeProjectionEntries (arity : Option ℕ) : Option IndexEntry → List IndexEntry →
    σ × ScanControl → Except ProjectionError (σ × ScanControl)
  | _, [], r => .ok r
  | previous, entry :: rest, r =>
    if arity.any fun arity => !compositeKeyHasArity entry.1 arity then
      let blockId := block.blockId
      .error (.corrupt
        s!"composite property projection block {blockId} contains a key with invalid arity")
    else if previous.any fun previous => entryCmp previous entry ≠ .lt then
      let blockId := block.blockId
      .error (.corrupt s!"property projection block {blockId} entries are not strictly ordered")
    else
      (if r.2 = .proceed ∧ valueMatches entry.1 then consumer r.1 entry else .ok r) >>=
        decodeProjectionEntries arity (some entry) rest

def scanOneBlock (s : σ) : Except ProjectionError (σ × ScanControl) := do
  let arity ← if block.kind = .compositeEquality then
      (decodeCompositePropertyIdentity block.property).map fun properties => some properties.length
    else .ok none
  let r ← decodeProjectionEntries block valueMatches consumer arity none block.entries (s, .proceed)
  if block.entries.head?.all (fun first => !Value.eq first.1 block.minKey) ||
      block.entries.getLast?.all (fun last => !Value.eq last.1 block.maxKey) then
    let blockId := block.blockId
    .error (.corrupt s!"property projection block {blockId} payload bounds are inconsistent")
  else .ok r

end

def scanEntries (labelId : UInt32) (property : String) (kind : ProjectionKind)
    (valueMatches : Value → Bool) (blockMatches : ProjectionBlock → Bool)
    (consumer : σ → IndexEntry → Except ProjectionError (σ × ScanControl)) (s : σ) :
    Except ProjectionError (σ × ScanControl) :=
  if !projection.supports labelId property kind then
    .error (.source "requested persistent property projection is unavailable or incomplete")
  else
    scanUntil (fun s descriptor => do
        validateDescriptor descriptor.1 descriptor.2
        projection.validateSelectedDescriptor descriptor.2 kind labelId property
        if blockMatches descriptor.2 then scanOneBlock descriptor.2 valueMatches consumer s
        else .ok (s, .proceed))
      (projection.scanPrefix (propertyProjectionDescriptorPrefix kind labelId property)) s

def scanRangeEntries (labelId : UInt32) (property : String) (lower upper : Option (Value × Bool))
    (consumer : σ → IndexEntry → Except ProjectionError (σ × ScanControl)) (s : σ) :
    Except ProjectionError (σ × ScanControl) :=
  projection.scanEntries labelId property .range (rangeBoundsMatch · lower upper)
    (rangeBlockMightMatch lower upper) consumer s

/-- `scan_candidates`: the consumer gets the ids only. -/
def scanCandidates (labelId : UInt32) (property : String) (kind : ProjectionKind)
    (valueMatches : Value → Bool) (blockMatches : ProjectionBlock → Bool)
    (consumer : σ → ℕ → Except ProjectionError (σ × ScanControl)) (s : σ) :
    Except ProjectionError (σ × ScanControl) :=
  projection.scanEntries labelId property kind valueMatches blockMatches
    (fun s entry => consumer s entry.2) s

def scanEqualityCandidates (labelId : UInt32) (property : String) (value : Value)
    (consumer : σ → ℕ → Except ProjectionError (σ × ScanControl)) (s : σ) :
    Except ProjectionError (σ × ScanControl) :=
  projection.scanCandidates labelId property .equality (·.eq value) (equalityBlockMightMatch value)
    consumer s

end PropertyProjection

end HawDB
