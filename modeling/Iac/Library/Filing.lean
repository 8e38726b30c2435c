import Mathlib.Data.List.Nodup
import Mathlib.Data.List.Basic

/-! Records that are kept in two tables: one row with a key for each record, and rows with its lines, which
have the key of the record that they belong to. -/

namespace Filing

variable {Key Header Line : Type}

structure Record (Key Header Line : Type) where
  key : Key
  header : Header
  lines : List Line
  deriving DecidableEq, Repr

def headers (records : List (Record Key Header Line)) : List (Key × Header) :=
  records.map fun record => (record.key, record.header)

def rows (records : List (Record Key Header Line)) : List (Key × Line) :=
  records.flatMap fun record => record.lines.map (record.key, ·)

def keys (records : List (Record Key Header Line)) : List Key := records.map Record.key

theorem headers_append (before behind : List (Record Key Header Line)) :
    headers (before ++ behind) = headers before ++ headers behind := List.map_append

theorem rows_append (before behind : List (Record Key Header Line)) :
    rows (before ++ behind) = rows before ++ rows behind := List.flatMap_append

theorem headers_keys (records : List (Record Key Header Line)) :
    (headers records).map Prod.fst = keys records := by
  simp [headers, keys]

/-- Lines belong to records. -/
theorem rows_keys {records : List (Record Key Header Line)} {row : Key × Line} (member : row ∈ rows records) :
    row.1 ∈ keys records := by
  obtain ⟨record, isOne, inside⟩ := List.mem_flatMap.mp member
  obtain ⟨line, _, rfl⟩ := List.mem_map.mp inside
  exact List.mem_map_of_mem isOne

/-- The two tables hold these records, and nothing else. -/
structure Filed (records : List (Record Key Header Line)) (heads : List (Key × Header))
    (table : List (Key × Line)) : Prop where
  heads : heads = headers records
  table : table = rows records
  distinct : (keys records).Nodup

variable {records : List (Record Key Header Line)} {heads : List (Key × Header)} {table : List (Key × Line)}

theorem filed_nil : Filed ([] : List (Record Key Header Line)) [] [] := ⟨rfl, rfl, List.nodup_nil⟩

theorem Filed.keys (filed : Filed records heads table) : heads.map Prod.fst = keys records := by
  rw [filed.heads, headers_keys]

/-- A new record with a key of its own. -/
theorem Filed.file (filed : Filed records heads table) {record : Record Key Header Line}
    (fresh : record.key ∉ heads.map Prod.fst) :
    Filed (records ++ [record]) (heads ++ [(record.key, record.header)])
      (table ++ record.lines.map (record.key, ·)) := by
  rw [filed.keys] at fresh
  refine ⟨?_, ?_, ?_⟩
  · rw [filed.heads, headers_append]
    rfl
  · rw [filed.table, rows_append]
    simp [rows]
  · rw [Filing.keys, List.map_append, List.map_singleton, List.nodup_append]
    refine ⟨filed.distinct, List.nodup_singleton _, ?_⟩
    intro key member other own same
    rw [List.mem_singleton.mp own] at same
    exact fresh (same ▸ member)

section

variable [DecidableEq Key]

/-- The lines with a key, in the order of the table. -/
def linesOf (key : Key) (table : List (Key × Line)) : List Line :=
  (table.filter (·.1 = key)).map Prod.snd

/-- Both tables joined by the key. -/
def read (heads : List (Key × Header)) (table : List (Key × Line)) : List (Record Key Header Line) :=
  heads.map fun head => ⟨head.1, head.2, linesOf head.1 table⟩

theorem linesOf_append (key : Key) (before behind : List (Key × Line)) :
    linesOf key (before ++ behind) = linesOf key before ++ linesOf key behind := by
  simp [linesOf]

theorem linesOf_absent {key : Key} {table : List (Key × Line)} (absent : ∀ row ∈ table, row.1 ≠ key) :
    linesOf key table = [] := by
  have none_left : table.filter (·.1 = key) = [] :=
    List.filter_eq_nil_iff.mpr fun row member => by simpa using absent row member
  rw [linesOf, none_left, List.map_nil]

theorem linesOf_own (key : Key) (lines : List Line) : linesOf key (lines.map (key, ·)) = lines := by
  simp [linesOf, List.filter_map, Function.comp_def]

/-- Each record keeps its own lines, as no other has its key. -/
theorem linesOf_rows {before behind : List (Record Key Header Line)} {record : Record Key Header Line}
    (distinct : (keys (before ++ record :: behind)).Nodup) :
    linesOf record.key (rows (before ++ record :: behind)) = record.lines := by
  have apart : ∀ other, other ∈ before ++ behind → other.key ≠ record.key := by
    rw [keys, List.map_append, List.map_cons, List.nodup_middle, List.nodup_cons] at distinct
    intro other member same
    rw [← List.map_append] at distinct
    exact distinct.1 (same ▸ List.mem_map_of_mem member)
  have elsewhere : ∀ others, others ⊆ before ++ behind → linesOf record.key (rows others) = [] := by
    intro others inside
    refine linesOf_absent fun row member same => ?_
    obtain ⟨other, isOne, key⟩ := List.mem_map.mp (rows_keys member)
    exact apart other (inside isOne) (key.trans same)
  have split : rows (before ++ record :: behind) =
      rows before ++ (record.lines.map (record.key, ·) ++ rows behind) := rows_append before _
  rw [split, linesOf_append, linesOf_append, linesOf_own,
    elsewhere before (List.subset_append_left _ _), elsewhere behind (List.subset_append_right _ _),
    List.nil_append, List.append_nil]

theorem read_headers {records : List (Record Key Header Line)} (distinct : (keys records).Nodup) :
    read (headers records) (rows records) = records := by
  rw [read, headers, List.map_map]
  refine (List.map_congr_left fun record member => ?_).trans (List.map_id _)
  obtain ⟨before, behind, rfl⟩ := List.append_of_mem member
  exact congrArg (Record.mk record.key record.header) (linesOf_rows distinct)

/-- What is filed can be read. -/
theorem Filed.read (filed : Filed records heads table) : Filing.read heads table = records := by
  rw [filed.heads, filed.table, read_headers filed.distinct]

end

end Filing
