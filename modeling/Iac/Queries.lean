import Iac.DatabaseServer

/-! What the query texts of the database server mean: each text is read back from its
array, scanned and parsed. -/

namespace Iac

open CText Sql

theorem plain_int (value : Int32) : (Value.integer value.toInt).Plain := by
  have lower := value.le_toInt
  have upper := value.toInt_lt
  exact ⟨by omega, by omega⟩

/-! The stock query. -/

theorem stockQuery_text (productId : Int32) :
    cstring (stockQuery productId) = stockBase ++ itoa productId.toInt := by
  have clean : (0 : UInt8) ∉ stockBase ++ itoa productId.toInt := by
    rw [List.mem_append, not_or]
    exact ⟨by decide, itoa_no_nul _⟩
  rw [stockQuery_whole, cstring_append_nul clean]

theorem stockQuery_parse (productId : Int32) :
    parse (cstring (stockQuery productId)) =
      [some (.select quantityColumn productsTable (some (idColumn, productId.toInt)))] := by
  let number := signedTokens (productId.toInt < 0) (decimal productId.toInt.natAbs)
  have scanned : tokens (stockBase ++ itoa productId.toInt) =
      [.word (ascii "SELECT"), .word quantityColumn, .word (ascii "FROM"), .word productsTable,
        .word (ascii "WHERE"), .word idColumn, .equals] ++ number := by
    have base : tokens (stockBase ++ itoa productId.toInt) =
        [.word (ascii "SELECT"), .word quantityColumn, .word (ascii "FROM"), .word productsTable,
          .word (ascii "WHERE"), .word idColumn, .equals] ++ scan .blank (itoa productId.toInt) := rfl
    rw [base, itoa, scan_signed_end _ (decimal_numeral _)]
  have whole : Token.semicolon ∉ tokens (stockBase ++ itoa productId.toInt) := by
    rw [scanned, List.mem_append, not_or]
    exact ⟨by decide, semicolon_not_signed _ _⟩
  rw [stockQuery_text, parse, script_single (by rw [scanned]; simp) whole, scanned]
  have clause : condition (.word (ascii "WHERE") :: .word idColumn :: .equals :: number) =
      some (some (idColumn, productId.toInt)) := condition_itoa (by decide) _
  change [(condition (.word (ascii "WHERE") :: .word idColumn :: .equals :: number)).map
    (Statement.select quantityColumn productsTable)] = _
  rw [clause]
  rfl

theorem getStock_eq (c : Circumstances) (entry : Nat) (productId : Int32) (db : Database) :
    getStock c entry productId db =
      if c.refuses (.stock entry) then -1
      else if productId.toInt ∈ db.ids then storeSingleNumber (db.stock productId.toInt)
      else c.leftover entry := by
  unfold getStock
  cases refused : c.refuses (.stock entry) with
  | true => simp [runQuery_refused]
  | false =>
      have answered : carriedOut c.sqlite
          (.select quantityColumn productsTable (some (idColumn, productId.toInt))) db =
          ⟨true, db, (db.products.filter (hasId productId.toInt)).map ProductRow.quantity⟩ := by
        simp [carriedOut, execStatement, rowFilter]
      rw [runQuery_accepted c.sqlite (stockQuery_parse productId) (.select (plain_int productId)), answered]
      by_cases present : productId.toInt ∈ db.ids
      · obtain ⟨row, member, same⟩ := List.mem_map.mp present
        have unique := db.row_unique member
        rw [same] at unique
        have only : db.products.filter (hasId productId.toInt) = [row] := unique
        have quantity := db.stock_row member
        rw [same] at quantity
        simp [only, present, quantity]
      · have empty : db.products.filter (hasId productId.toInt) = [] := db.filter_absent present
        simp [empty, present]

/-! The statement that takes goods from the stock. -/

def updateBase : Bytes := ascii "UPDATE products SET quantity=quantity-"

def updateTokens : List Token :=
  [.word (ascii "UPDATE"), .word productsTable, .word (ascii "SET"), .word quantityColumn, .equals,
    .word quantityColumn]

def whereTokens (productId : Int) : List Token :=
  [.word (ascii "WHERE"), .word idColumn, .equals] ++
    signedTokens (productId < 0) (decimal productId.natAbs)

theorem scan_where (productId : Int) :
    scan .blank (ascii " WHERE id=" ++ itoa productId) = whereTokens productId := by
  have base : scan .blank (ascii " WHERE id=" ++ itoa productId) =
      [.word (ascii "WHERE"), .word idColumn, .equals] ++ scan .blank (itoa productId) := rfl
  rw [base, itoa, scan_signed_end _ (decimal_numeral _)]
  rfl

theorem updateQuery_text {query written : Bytes} {entry : OrderEntry}
    (done : updateQuery query entry = some written) :
    cstring written = updateBase ++ (itoa entry.quantity.toInt ++
      (ascii " WHERE id=" ++ itoa entry.productId.toInt)) := by
  have clean : (0 : UInt8) ∉ updateBase ++ (itoa entry.quantity.toInt ++
      (ascii " WHERE id=" ++ itoa entry.productId.toInt)) := by
    simp only [List.mem_append, not_or]
    exact ⟨by decide, itoa_no_nul _, by decide, itoa_no_nul _⟩
  unfold updateQuery at done
  simp only [List.append_assoc] at done
  exact sprintfAt_zero_cstring clean done

theorem updateQuery_isSome {query : Bytes} (size : query.length = 1024) (entry : OrderEntry) :
    (updateQuery query entry).isSome := by
  have quantity := countDigits_le entry.quantity
  have productId := countDigits_le entry.productId
  rw [countDigits_eq] at quantity productId
  have base : (ascii "UPDATE products SET quantity=quantity-").length = 38 := by decide
  have middle : (ascii " WHERE id=").length = 10 := by decide
  rw [updateQuery, sprintfAt_isSome, size]
  simp only [List.length_append]
  omega

theorem updateQuery_parse_nonnegative {query written : Bytes} {entry : OrderEntry}
    (nonnegative : 0 ≤ entry.quantity.toInt) (done : updateQuery query entry = some written) :
    parse (cstring written) = [some (.update productsTable quantityColumn quantityColumn
      entry.quantity.toInt.natAbs (some (idColumn, entry.productId.toInt)))] := by
  let digits := decimal entry.quantity.toInt.natAbs
  have scanned : tokens (cstring written) =
      updateTokens ++ .minus :: .number digits :: whereTokens entry.productId.toInt := by
    have base : tokens (cstring written) = updateTokens ++ scan .hyphen
        (digits ++ (ascii " WHERE id=" ++ itoa entry.productId.toInt)) := by
      rw [updateQuery_text done, itoa_nonnegative nonnegative]
      rfl
    have negated : scan .hyphen (digits ++ (ascii " WHERE id=" ++ itoa entry.productId.toInt)) =
        scan .blank (signed true digits ++ (ascii " WHERE id=" ++ itoa entry.productId.toInt)) := rfl
    have ends : ascii " WHERE id=" ++ itoa entry.productId.toInt =
        32 :: (ascii "WHERE id=" ++ itoa entry.productId.toInt) := rfl
    rw [base, negated, ends, scan_signed_then true (decimal_numeral _) (by decide), ← ends, scan_where]
    rfl
  have whole : Token.semicolon ∉ tokens (cstring written) := by
    rw [scanned, List.mem_append, not_or]
    refine ⟨by decide, ?_⟩
    simp only [List.mem_cons, not_or, whereTokens, List.mem_append]
    exact ⟨by decide, by simp, by decide, semicolon_not_signed _ _⟩
  rw [parse, script_single (by rw [scanned]; simp [updateTokens]) whole, scanned]
  have clause : condition (whereTokens entry.productId.toInt) =
      some (some (idColumn, entry.productId.toInt)) := condition_itoa (by decide) _
  have allDigits : digits.all isDigit = true := List.all_eq_true.mpr (decimal_digits _)
  change [if keyword "SET" (ascii "SET") && digits.all isDigit then
    (condition (whereTokens entry.productId.toInt)).map
      (Statement.update productsTable quantityColumn quantityColumn (numeral digits)) else none] = _
  rw [clause, allDigits, numeral_decimal]
  rfl

/-- For a negative amount the two hyphens start a comment, and `WHERE` is part of it. -/
theorem updateQuery_parse_negative {query written : Bytes} {entry : OrderEntry}
    (negative : entry.quantity.toInt < 0) (done : updateQuery query entry = some written) :
    parse (cstring written) =
      [some (.update productsTable quantityColumn quantityColumn 0 none)] := by
  have scanned : tokens (cstring written) = updateTokens := by
    have base : tokens (cstring written) = updateTokens ++ scan .comment
        (decimal entry.quantity.toInt.natAbs ++
          (ascii " WHERE id=" ++ itoa entry.productId.toInt)) := by
      rw [updateQuery_text done, itoa_negative negative]
      rfl
    have digitNotNewline : ∀ byte, isDigit byte = true → byte ≠ newline := by
      rintro byte isNumber rfl
      exact absurd isNumber (by decide)
    have oneLine : newline ∉ decimal entry.quantity.toInt.natAbs ++
        (ascii " WHERE id=" ++ itoa entry.productId.toInt) := by
      simp only [List.mem_append, not_or]
      refine ⟨fun member => digitNotNewline _ (decimal_digits _ _ member) rfl, by decide, ?_⟩
      unfold itoa signed
      split
      · simp only [List.mem_cons, not_or]
        exact ⟨by decide, fun member => digitNotNewline _ (decimal_digits _ _ member) rfl⟩
      · exact fun member => digitNotNewline _ (decimal_digits _ _ member) rfl
    rw [base, scan_comment oneLine, List.append_nil]
  rw [parse, scanned]
  decide

/-- What taking an entry's goods does: only amounts that are not negative reach the table. -/
def takeEntry (entry : OrderEntry) (db : Database) : Option Database :=
  if 0 ≤ entry.quantity.toInt then
    db.updateStock (hasId entry.productId.toInt) entry.quantity.toInt.natAbs
  else some db

theorem updateQuery_run (c : Circumstances) (refused : Bool) {query written : Bytes}
    {entry : OrderEntry} (done : updateQuery query entry = some written) (db : Database) :
    runQuery c.sqlite refused written db =
      match refused, takeEntry entry db with
      | false, some after => ⟨true, after, []⟩
      | _, _ => ⟨false, db, []⟩ := by
  cases refused with
  | true => rfl
  | false =>
      by_cases nonnegative : 0 ≤ entry.quantity.toInt
      · have upper := entry.quantity.toInt_lt
        have issued : Issued (.update productsTable quantityColumn quantityColumn
            entry.quantity.toInt.natAbs (some (idColumn, entry.productId.toInt))) :=
          @Issued.update _ (some entry.productId.toInt) (by omega) (by
            rintro _ ⟨⟩
            exact plain_int entry.productId)
        rw [runQuery_accepted c.sqlite (updateQuery_parse_nonnegative nonnegative done) issued, takeEntry,
          if_pos nonnegative]
        cases taken : db.updateStock (hasId entry.productId.toInt) entry.quantity.toInt.natAbs <;>
          simp [carriedOut, execStatement, rowFilter, taken]
      · have issued : Issued (.update productsTable quantityColumn quantityColumn 0 none) :=
          @Issued.update 0 none (by decide) (by simp)
        rw [runQuery_accepted c.sqlite (updateQuery_parse_negative (by omega) done) issued, takeEntry,
          if_neg nonnegative]
        simp [carriedOut, execStatement, rowFilter, Database.updateStock_zero]

end Iac
