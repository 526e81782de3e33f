import Mathlib

/-!
# The catalog

Labels and relationship types are numbered in the order of their creation. Property indexes are
declared on a label and a property, one of each kind at most. Symbols and indexes are only added.
-/

namespace HawDB

/-- Names numbered in the order of their creation, each once. -/
structure SymbolTable where
  names : List String
  nodup : names.Nodup

namespace SymbolTable

def idOf (table : SymbolTable) (name : String) : Option ℕ :=
  if name ∈ table.names then some (table.names.idxOf name) else none

def nameOf (table : SymbolTable) (id : ℕ) : Option String := table.names[id]?

def getOrCreate (table : SymbolTable) (name : String) : SymbolTable × ℕ :=
  if h : name ∈ table.names then (table, table.names.idxOf name)
  else (⟨table.names ++ [name], by simpa using table.nodup.concat h⟩, table.names.length)

end SymbolTable

inductive IndexKind where
  | equality
  | range
  | fullText
deriving DecidableEq, Repr

structure IndexDescriptor where
  labelId : ℕ
  property : String
  kind : IndexKind
deriving DecidableEq, Repr

structure Catalog where
  labels : SymbolTable
  relTypes : SymbolTable
  propertyIndexes : List IndexDescriptor

namespace Catalog

def labelId (catalog : Catalog) (name : String) : Option ℕ := catalog.labels.idOf name

def labelName (catalog : Catalog) (id : ℕ) : Option String := catalog.labels.nameOf id

def relTypeName (catalog : Catalog) (id : ℕ) : Option String := catalog.relTypes.nameOf id

def getOrCreateLabel (catalog : Catalog) (name : String) : Catalog × ℕ :=
  let (labels, id) := catalog.labels.getOrCreate name
  ({ catalog with labels }, id)

def getOrCreateRelType (catalog : Catalog) (name : String) : Catalog × ℕ :=
  let (relTypes, id) := catalog.relTypes.getOrCreate name
  ({ catalog with relTypes }, id)

def getOrCreatePropertyIndexWithKind (catalog : Catalog) (labelId : ℕ) (property : String)
    (kind : IndexKind) : Catalog :=
  if ⟨labelId, property, kind⟩ ∈ catalog.propertyIndexes then catalog
  else { catalog with propertyIndexes := catalog.propertyIndexes ++ [⟨labelId, property, kind⟩] }

/-- `property_indexes`: the declarations on a property with a name. -/
def namedPropertyIndexes (catalog : Catalog) : List IndexDescriptor :=
  catalog.propertyIndexes.filter fun index => !index.property.isEmpty

/-- Everything a catalog has stays where it is. -/
def isExtendedBy (catalog later : Catalog) : Bool :=
  catalog.labels.names.isPrefixOf later.labels.names &&
    catalog.relTypes.names.isPrefixOf later.relTypes.names &&
    catalog.propertyIndexes.isPrefixOf later.propertyIndexes

end Catalog

end HawDB
