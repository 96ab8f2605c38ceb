import PqAsync.CellCore
import PqAsync.Gregorian

/-!
NULL cells on the two paths: which types are read as their null value both from a row and from
the value of a query.
-/

namespace PqAsync

section

variable (conversions : Conversions) (host : Host)

namespace PgType

/-- The readers that give their null value for a null pointer, whatever the length. -/
def acceptsNull (t : PgType) : Bool := t.testsPointer || t ∈ [string, bytea]

theorem fromPointer_of_accepts {t : PgType} (accepts : t.acceptsNull = true) :
    t.fromPointer host none 0 = .ok (t.null host) ∧
      t.fromPointer host none (-1) = .ok (t.null host) := by
  have cases : t ∈ [time, timeTz, timestamp, timestampTz, date, interval, string, bytea] := by
    revert accepts
    cases t <;> decide
  simp only [List.mem_cons, List.not_mem_nil, or_false] at cases
  rcases cases with rfl | rfl | rfl | rfl | rfl | rfl | rfl | rfl
  all_goals exact ⟨rfl, rfl⟩

theorem fromPointer_of_rejects {t : PgType} (rejects : t.acceptsNull = false) :
    ∃ failure, t.fromPointer host none 0 = .error failure := by
  cases t
  case string | bytea | time | timeTz | timestamp | timestampTz | date | interval =>
    exact absurd rejects (by decide)
  all_goals exact ⟨_, rfl⟩

end PgType

def CellType.supports (oid : Int) : CellType → Prop
  | scalar (.value t) => oid ∈ t.ownOids ∨ ∃ source, t.source oid = some source
  | scalar .json => oid ∈ PgType.jsonOids ∧ ∃ source, PgType.ofOid oid = some source
  | array _ => True

/-- The oids from which a type is read as its null value: the reader accepts a null pointer, and
a conversion that follows makes the null value of its own. -/
def CellType.acceptsNull (oid : Int) : CellType → Prop
  | scalar (.value t) =>
      if oid ∈ t.ownOids then t.acceptsNull = true
      else ∃ source, t.source oid = some source ∧ source.acceptsNull = true ∧
        conversions.convert source t oid (source.null host) = .ok (t.null host)
  | scalar .json => ∃ source, PgType.ofOid oid = some source ∧ source.acceptsNull = true ∧
      conversions.toJson source oid (source.null host) = .ok conversions.jsonNull
  | array _ => False

/-- What the two paths owe a row: a NULL is the null value on both of them, and a cell that is
not NULL is the same value on both of them. -/
structure NullsAgree (T : CellType) (row : List Cell) : Prop where
  null {i : Nat} {cell : Cell} : row[i]? = some cell → cell.payload = none → T.supports cell.oid →
    rowAs conversions host T (initializeRow row) i = .ok (T.null conversions host) ∧
      ∀ {resultStatus errMsg}, ExecStatus.hasValue resultStatus = true →
        processQueryValueResult conversions host T resultStatus errMsg cell =
          .ok (T.null conversions host)
  value {i : Nat} {cell : Cell} {bytes : List UInt8} : row[i]? = some cell →
    cell.payload = some bytes → ∀ {resultStatus errMsg}, ExecStatus.hasValue resultStatus = true →
      rowAs conversions host T (initializeRow row) i =
        processQueryValueResult conversions host T resultStatus errMsg cell

variable {T : CellType} {row : List Cell} {i : Nat} {cell : Cell} {resultStatus : ExecStatus}
  {errMsg : String}

theorem rowAs_null (inRow : row[i]? = some cell) (null : cell.payload = none) :
    rowAs conversions host T (initializeRow row) i =
      T.valFromPgparam conversions host cell.oid none 0 := by
  rw [rowAs, initializeRow, List.getElem?_map, inRow]
  dsimp only [Option.map]
  rw [null]
  rfl

theorem rowAs_value {bytes : List UInt8} (inRow : row[i]? = some cell)
    (present : cell.payload = some bytes) :
    rowAs conversions host T (initializeRow row) i =
      T.valFromPgparam conversions host cell.oid (some bytes) bytes.length := by
  rw [rowAs, initializeRow, List.getElem?_map, inRow]
  dsimp only [Option.map]
  rw [present]
  rfl

theorem query_null (null : cell.payload = none) (delivered : resultStatus.hasValue = true) :
    processQueryValueResult conversions host T resultStatus errMsg cell =
      T.valFromPgparam conversions host cell.oid none (-1) := by
  rw [processQueryValueResult, delivered, null]
  rfl

theorem query_value {bytes : List UInt8} (present : cell.payload = some bytes)
    (delivered : resultStatus.hasValue = true) :
    processQueryValueResult conversions host T resultStatus errMsg cell =
      T.valFromPgparam conversions host cell.oid (some bytes) bytes.length := by
  rw [processQueryValueResult, delivered, present]
  rfl

theorem orThrow_ok {α : Type} {result : Except String α} {value : α} :
    orThrow result = .ok value ↔ result = .ok value := by
  cases result with
  | error message => simp [orThrow, Except.mapError]
  | ok own => simp [orThrow, Except.mapError]

theorem converted_null {α : Type} {source : PgType} {convert : source.Value → Except String α}
    {value : α} (read : (do
      let v ← source.fromPointer host none 0
      orThrow (convert v)) = .ok value) :
    source.acceptsNull = true ∧ convert (source.null host) = .ok value := by
  by_cases accepts : source.acceptsNull = true
  · rw [(source.fromPointer_of_accepts host accepts).1, Results.ok_bind] at read
    exact ⟨accepts, orThrow_ok.mp read⟩
  · obtain ⟨failure, failed⟩ := source.fromPointer_of_rejects host (Bool.not_eq_true _ ▸ accepts)
    rw [failed, Results.error_bind] at read
    contradiction

theorem acceptsNull_of_read {oid : Int} (supported : T.supports oid)
    (read : T.valFromPgparam conversions host oid none 0 = .ok (T.null conversions host)) :
    T.acceptsNull conversions host oid := by
  cases T with
  | array element =>
      have failed : (CellType.array element).valFromPgparam conversions host oid none 0 =
          .error .outOfBounds := rfl
      rw [failed] at read
      contradiction
  | scalar element =>
      cases element with
      | value t =>
          change PgType.select conversions oid (fun t => t.fromPointer host none 0) t =
            .ok (t.null host) at read
          rw [PgType.select] at read
          rw [CellType.acceptsNull]
          by_cases own : oid ∈ t.ownOids
          · rw [if_pos own] at read ⊢
            by_contra rejects
            obtain ⟨failure, failed⟩ := t.fromPointer_of_rejects host (Bool.not_eq_true _ ▸ rejects)
            rw [failed] at read
            contradiction
          · obtain ⟨source, found⟩ := supported.resolve_left own
            rw [if_neg own, found] at read
            rw [if_neg own]
            exact ⟨source, found, converted_null host read⟩
      | json =>
          obtain ⟨inSwitch, source, found⟩ := supported
          change selectJson conversions oid (fun t => t.fromPointer host none 0) =
            .ok conversions.jsonNull at read
          rw [selectJson, if_pos inSwitch, found] at read
          exact ⟨source, found, converted_null host read⟩

theorem read_of_acceptsNull {oid : Int} (supported : T.supports oid)
    (accepts : T.acceptsNull conversions host oid) {len : Int} (announced : len = 0 ∨ len = -1) :
    T.valFromPgparam conversions host oid none len = .ok (T.null conversions host) := by
  have own {t : PgType} (accepts : t.acceptsNull = true) :
      t.fromPointer host none len = .ok (t.null host) := by
    obtain ⟨ofRow, ofQuery⟩ := t.fromPointer_of_accepts host accepts
    rcases announced with rfl | rfl
    · exact ofRow
    · exact ofQuery
  cases T with
  | array element => exact absurd accepts not_false
  | scalar element =>
      cases element with
      | value t =>
          change PgType.select conversions oid (fun t => t.fromPointer host none len) t =
            .ok (t.null host)
          rw [CellType.acceptsNull] at accepts
          rw [PgType.select]
          split at accepts
          · next inOwn =>
              rw [if_pos inOwn]
              exact own accepts
          · next notOwn =>
              obtain ⟨source, found, fromNull, converted⟩ := accepts
              rw [if_neg notOwn, found]
              dsimp only
              rw [own fromNull, Results.ok_bind]
              exact orThrow_ok.mpr converted
      | json =>
          obtain ⟨inSwitch, _⟩ := supported
          obtain ⟨source, found, fromNull, converted⟩ := accepts
          change selectJson conversions oid (fun t => t.fromPointer host none len) =
            .ok conversions.jsonNull
          rw [selectJson, if_pos inSwitch, found]
          dsimp only
          rw [own fromNull, Results.ok_bind]
          exact orThrow_ok.mpr converted

/-- The two paths agree on a row exactly if every NULL of it is read from an oid that accepts
one. -/
theorem nulls_agree_iff : NullsAgree conversions host T row ↔
    ∀ cell ∈ row, cell.payload = none → T.supports cell.oid →
      T.acceptsNull conversions host cell.oid := by
  constructor
  · intro agree cell member null supported
    obtain ⟨i, inRow⟩ := List.mem_iff_getElem?.mp member
    have read := (agree.null inRow null supported).1
    rw [rowAs_null conversions host inRow null] at read
    exact acceptsNull_of_read conversions host supported read
  · intro accepted
    refine ⟨?_, ?_⟩
    · intro i cell inRow null supported
      have accepts := accepted cell (List.mem_of_getElem? inRow) null supported
      refine ⟨?_, ?_⟩
      · rw [rowAs_null conversions host inRow null]
        exact read_of_acceptsNull conversions host supported accepts (Or.inl rfl)
      · intro resultStatus errMsg delivered
        rw [query_null conversions host null delivered]
        exact read_of_acceptsNull conversions host supported accepts (Or.inr rfl)
    · intro i cell bytes inRow present resultStatus errMsg delivered
      rw [rowAs_value conversions host inRow present, query_value conversions host present delivered]

end

/-- A machine at the epoch, and switches that convert nothing. -/
def epochHost : Host := { calendar := gregorian, clock := 0, fracDigits := 2 }

def noConversions : Conversions where
  Json := Unit
  jsonNull := ()
  convert _ _ _ _ := .error "not converted"
  toJson _ _ _ := .error "not converted"

theorem null_integer_dereferenced :
    processQueryValueResult noConversions epochHost (.scalar (.value .int32)) .tuplesOk ""
        ⟨int4Oid, none⟩ = .ok (0 : BitVec 32) ∧
      rowAs noConversions epochHost (.scalar (.value .int32)) (initializeRow [⟨int4Oid, none⟩]) 0 =
        .error .outOfBounds ∧
      ¬NullsAgree noConversions epochHost (.scalar (.value .int32)) [⟨int4Oid, none⟩] := by
  have inRow : rowAs noConversions epochHost (.scalar (.value .int32))
      (initializeRow [⟨int4Oid, none⟩]) 0 = .error .outOfBounds := rfl
  refine ⟨rfl, inRow, ?_⟩
  intro agree
  have read := (@NullsAgree.null _ _ _ _ agree 0 _ rfl rfl (Or.inl (by decide))).1
  rw [inRow] at read
  contradiction

end PqAsync
