import HawDB.RowDelta

/-!
# Row pages

The base of a row-page view is a root: for each table, pages with ascending and disjoint key ranges.
A page is found by a binary search over the bounds of the pages, which answers with the page that
contains the key, with the first page above the key, or with the last page (`findPageLoop`). A page
is what its decoder accepts.
-/

namespace HawDB

def IsKeyBytes (x : Bytes) : Prop :=
  ∃ key, decodeOrderedRelationalKey x = .ok key ∧ encodeOrderedRelationalKey key = .ok x

structure RowPageLimits where
  maxKeyBytes : ℕ
  maxRequestedFields : ℕ

/-- An encoded key of a lookup or a range is not too long. -/
def RowPageLimits.checkKey (limits : RowPageLimits) (subject : String) (encoded : Bytes) :
    Except RowPageError Unit :=
  if encoded.length > limits.maxKeyBytes then
    .error (.admission (s!"{subject} key contains {encoded.length} bytes, " ++
      s!"exceeding limit {limits.maxKeyBytes}"))
  else .ok ()

/-- A row of a page, by its encoded key. -/
abbrev RowPageEntry := Bytes × RelationalRow

structure RowPage where
  pageId : ℕ
  columnCount : ℕ
  rows : List RowPageEntry
  nonempty : rows ≠ []
  sorted : SortedKeys rows
  keys : ∀ entry ∈ rows, IsKeyBytes entry.1

namespace RowPage

def lowerBound (page : RowPage) : Bytes := (page.rows.head page.nonempty).1

def upperBound (page : RowPage) : Bytes := (page.rows.getLast page.nonempty).1

/-- The loop of `find_row_encoded`. -/
def findRowLoop (rows : List RowPageEntry) (encoded : Bytes) (lower upper : ℕ) :
    Option RowPageEntry :=
  if lower < upper then
    let middle := lower + (upper - lower) / 2
    match rows[middle]? with
    | none => none
    | some entry =>
      match compare entry.1 encoded with
      | .lt => findRowLoop rows encoded (middle + 1) upper
      | .gt => findRowLoop rows encoded lower middle
      | .eq => some entry
  else none
termination_by upper - lower

/-- `find_row_encoded`, with the row it finds. -/
def findRowEncoded (limits : RowPageLimits) (page : RowPage) (encoded : Bytes) :
    Except RowPageError (Option RowPageEntry) := do
  limits.checkKey "lookup" encoded
  .ok (findRowLoop page.rows encoded 0 page.rows.length)

/-- The loop of `lower_bound_row`. -/
def lowerBoundLoop (rows : List RowPageEntry) (encoded : Bytes) (inclusive : Bool)
    (lower upper : ℕ) : ℕ :=
  if lower < upper then
    let middle := lower + (upper - lower) / 2
    match rows[middle]? with
    | none => lower
    | some entry =>
      if compare entry.1 encoded = .lt ∨ (!inclusive ∧ compare entry.1 encoded = .eq) then
        lowerBoundLoop rows encoded inclusive (middle + 1) upper
      else lowerBoundLoop rows encoded inclusive lower middle
  else lower
termination_by upper - lower

def lowerBoundRow (limits : RowPageLimits) (page : RowPage) (primaryKey : RelationalKey)
    (inclusive : Bool) : Except RowPageError ℕ :=
  match encodeOrderedRelationalKey primaryKey with
  | .error e => .error (.orderedKey "" e)
  | .ok encoded => do
    limits.checkKey "range" encoded
    .ok (lowerBoundLoop page.rows encoded inclusive 0 page.rows.length)

end RowPage

structure RowTableRoot where
  columnCount : ℕ
  pages : List RowPage
  sorted : pages.Pairwise fun page later => compare page.upperBound later.lowerBound = .lt
  nextPageId : ℕ
  distinctIds : (pages.map (·.pageId)).Nodup
  pageId_lt : ∀ page ∈ pages, page.pageId < nextPageId

namespace RowTableRoot

/-- The loop of the descriptor search. -/
def findPageLoop (pages : List RowPage) (encoded : Bytes) (lower upper : ℕ)
    (candidate : Option ℕ) : Option ℕ :=
  if lower < upper then
    let middle := lower + (upper - lower) / 2
    match pages[middle]? with
    | none => candidate
    | some page =>
      if compare page.upperBound encoded = .lt then
        -- a key above the table keeps the last page
        findPageLoop pages encoded (middle + 1) upper
          (if middle + 1 = pages.length then some middle else candidate)
      else if compare page.lowerBound encoded ≠ .gt then some middle
      else findPageLoop pages encoded lower middle (some middle)
  else candidate
termination_by upper - lower

/-- `find_table_page_descriptor`, on an encoded key: nothing in an empty table. -/
def findTablePage (limits : RowPageLimits) (root : RowTableRoot) (encoded : Bytes) :
    Except RowPageError (Option ℕ) := do
  limits.checkKey "row-page lookup" encoded
  if root.pages.isEmpty then .ok none
  else
    match findPageLoop root.pages encoded 0 root.pages.length none with
    | none => .error (.corrupt "row-page descriptor search did not select a page")
    | some ordinal => .ok (some ordinal)

def rows (root : RowTableRoot) : List RowPageEntry := root.pages.flatMap (·.rows)

end RowTableRoot

end HawDB
