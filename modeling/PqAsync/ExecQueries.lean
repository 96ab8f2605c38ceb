import PqAsync.ExecCore
import PqAsync.TransactionSteps

/-!
Which answers of the server make `exec_queries` all-or-nothing, and with which it reports
every statement that failed.
-/

namespace PqAsync

def Reply.TookData (reply : Reply) : Prop :=
  reply.putCopyData = true ∧ reply.putCopyEnd = true ∧ reply.status.accepted = true

instance (reply : Reply) : Decidable reply.TookData := inferInstanceAs (Decidable (_ ∧ _))

theorem entersCopyMode_iff (qry : List Char) (status : ExecStatus) :
    entersCopyMode qry status = true ↔ isCopyStdin qry = true ∧
      (status = .copyIn ∨ status = .badResponse ∨ status = .nonfatalError ∨
        status = .fatalError) := by
  cases copying : isCopyStdin qry with
  | false => simp [entersCopyMode, copying]
  | true => cases status <;> simp [entersCopyMode, copying, ExecStatus.value]

theorem checkStatus_none_iff (reply : Reply) :
    checkStatus reply = none ↔ reply.status.accepted = true := by
  unfold checkStatus
  split <;> simp_all

theorem execQuery_data (qry : List Char) (reply : Reply) :
    (execQuery true qry reply).1 = { qry, asData := true, reply, entersCopy := false } ∧
      ((execQuery true qry reply).2 = none ↔ reply.TookData) := by
  unfold execQuery Reply.TookData
  simp only [if_true]
  cases reply.putCopyData with
  | false => simp
  | true =>
      cases reply.putCopyEnd with
      | false => simp
      | true => simp [checkStatus_none_iff]

theorem execQuery_statement (qry : List Char) (reply : Reply) :
    (execQuery false qry reply).1 =
        { qry, asData := false, reply, entersCopy := entersCopyMode qry reply.status } ∧
      ((execQuery false qry reply).2 = none ↔
        entersCopyMode qry reply.status = true ∨ reply.status.accepted = true) := by
  unfold execQuery
  cases enters : entersCopyMode qry reply.status with
  | false => simp [checkStatus_none_iff]
  | true => simp

theorem execLoop_cons (qry : List Char) (queries : List (List Char)) (replies : Nat → Reply)
    (inCopyMode : Bool) :
    execLoop (qry :: queries) replies inCopyMode =
      match (execQuery inCopyMode qry (replies 0)).2 with
      | some message => ([(execQuery inCopyMode qry (replies 0)).1], some message)
      | none =>
          let rest := execLoop queries (fun i => replies (i + 1))
            (execQuery inCopyMode qry (replies 0)).1.entersCopy
          ((execQuery inCopyMode qry (replies 0)).1 :: rest.1, rest.2) := by
  rw [execLoop]
  generalize execQuery inCopyMode qry (replies 0) = executed
  obtain ⟨round, error⟩ := executed
  cases error <;> rfl

def Accepted : List (List Char) → (Nat → Reply) → Bool → Prop
  | [], _, _ => True
  | _ :: queries, replies, true =>
      (replies 0).TookData ∧ Accepted queries (fun i => replies (i + 1)) false
  | qry :: queries, replies, false =>
      (entersCopyMode qry (replies 0).status = true ∨ (replies 0).status.accepted = true) ∧
        Accepted queries (fun i => replies (i + 1)) (entersCopyMode qry (replies 0).status)

theorem execLoop_error_none_iff (queries : List (List Char)) (replies : Nat → Reply)
    (inCopyMode : Bool) :
    (execLoop queries replies inCopyMode).2 = none ↔ Accepted queries replies inCopyMode := by
  induction queries generalizing replies inCopyMode with
  | nil => simp [execLoop, Accepted]
  | cons qry queries ih =>
      rw [execLoop_cons]
      cases inCopyMode with
      | true =>
          obtain ⟨round, goesOn⟩ := execQuery_data qry (replies 0)
          rw [round, Accepted, ← goesOn, ← ih]
          cases (execQuery true qry (replies 0)).2 <;> simp
      | false =>
          obtain ⟨round, goesOn⟩ := execQuery_statement qry (replies 0)
          rw [round, Accepted, ← goesOn, ← ih]
          cases (execQuery false qry (replies 0)).2 <;> simp

namespace Database

/-- What a call of `exec_queries` on the database `db` has to leave: an open transaction as
it was, or neither a transaction nor a lock. -/
def AllOrNothing (db : Database) (result : ExecResult) : Prop :=
  if db.inTransaction then result.db.inTransaction = true
  else result.db.inTransaction = false ∧ result.db.lock = false

instance (db : Database) (result : ExecResult) : Decidable (db.AllOrNothing result) :=
  inferInstanceAs (Decidable (if db.inTransaction then result.db.inTransaction = true
    else result.db.inTransaction = false ∧ result.db.lock = false))

/-- `open_connection()` throws before `_lock` is set. -/
def NotOpened (db : Database) (answers : ExecAnswers) : Prop :=
  db.lock = false ∧ ∃ message, answers.begin.opening = .failed message

/-- `BEGIN`, all entries and `COMMIT` are answered without an error. -/
def Succeeds (db : Database) (answers : ExecAnswers) (sql : List Char) : Prop :=
  (db.lock = false → ∀ message, answers.begin.opening ≠ .failed message) ∧
  (∀ message, answers.begin.reopening ≠ .failed message) ∧ answers.begin.reply = none ∧
  Accepted (splitQueries sql) answers.replies false ∧ answers.commit = none

/-- The rounds of the loop are those of all queries, once `exec_queries` has a transaction. -/
def Begins (db : Database) (answers : ExecAnswers) : Prop :=
  db.inTransaction = true ∨ (db.beginSync answers.begin).2 = none

/-- What `exec_queries` can do: throw in `begin()`, or go through the loop, and commit when
the transaction is its own and the loop ends. -/
theorem execQueries_cases {db : Database} {answers : ExecAnswers} {sql : List Char}
    {result : ExecResult} (ran : db.execQueries answers sql = some result) :
    db.conn = true ∧
    ((db.inTransaction = false ∧ (db.beginSync answers.begin).2.isSome = true ∧
        result.db = (db.beginSync answers.begin).1 ∧ result.rounds = [] ∧
        result.error = (db.beginSync answers.begin).2) ∨
      (db.Begins answers ∧
        result.rounds = (execLoop (splitQueries sql) answers.replies false).1 ∧
        ((db.inTransaction = true ∧ result.db = db ∧
            result.error = (execLoop (splitQueries sql) answers.replies false).2) ∨
          (db.inTransaction = false ∧ (db.beginSync answers.begin).2 = none ∧
            (((execLoop (splitQueries sql) answers.replies false).2.isSome = true ∧
                result.db = (db.beginSync answers.begin).1 ∧
                result.error = (execLoop (splitQueries sql) answers.replies false).2) ∨
              ((execLoop (splitQueries sql) answers.replies false).2 = none ∧
                result.db = ((db.beginSync answers.begin).1.endSync answers.commit).1 ∧
                result.error =
                  ((db.beginSync answers.begin).1.endSync answers.commit).2)))))) := by
  unfold execQueries at ran
  cases conn : db.conn with
  | false => simp [conn] at ran
  | true =>
      refine ⟨rfl, ?_⟩
      rw [conn] at ran
      simp only [Bool.not_true, Bool.false_eq_true, if_false] at ran
      generalize execLoop (splitQueries sql) answers.replies false = loop at ran ⊢
      obtain ⟨rounds, loopError⟩ := loop
      cases open_ : db.inTransaction with
      | true =>
          right
          rw [open_] at ran
          simp only [if_true, Option.some.injEq] at ran
          subst result
          exact ⟨Or.inl open_, rfl, Or.inl ⟨rfl, rfl, rfl⟩⟩
      | false =>
          rw [open_] at ran
          simp only [Bool.false_eq_true, if_false] at ran
          unfold Begins
          generalize db.beginSync answers.begin = begun at ran ⊢
          obtain ⟨next, error⟩ := begun
          cases error with
          | some message =>
              left
              simp only [Option.some.injEq] at ran
              subst result
              exact ⟨rfl, rfl, rfl, rfl, rfl⟩
          | none =>
              right
              cases loopError with
              | some message =>
                  simp only [Option.some.injEq] at ran
                  subst result
                  exact ⟨Or.inr rfl, rfl, Or.inr ⟨rfl, rfl, Or.inl ⟨rfl, rfl, rfl⟩⟩⟩
              | none =>
                  simp only [Option.some.injEq] at ran
                  subst result
                  exact ⟨Or.inr rfl, rfl, Or.inr ⟨rfl, rfl, Or.inr ⟨rfl, rfl, rfl⟩⟩⟩

theorem execQueries_isSome {db : Database} (conn : db.conn = true) (answers : ExecAnswers)
    (sql : List Char) : ∃ result, db.execQueries answers sql = some result := by
  unfold execQueries
  rw [conn]
  simp only [Bool.not_true, Bool.false_eq_true, if_false]
  split
  · exact ⟨_, rfl⟩
  · split
    · exact ⟨_, rfl⟩
    · split
      · exact ⟨_, rfl⟩
      · exact ⟨_, rfl⟩

def Returns (db : Database) (answers : ExecAnswers) : Prop :=
  db.inTransaction = true ∨ answers.commit = none

theorem error_none_iff {db : Database} {answers : ExecAnswers} {sql : List Char}
    {result : ExecResult} (ran : db.execQueries answers sql = some result)
    (begins : db.Begins answers) :
    result.rounds = (execLoop (splitQueries sql) answers.replies false).1 ∧
      (result.error = none ↔
        (execLoop (splitQueries sql) answers.replies false).2 = none ∧ db.Returns answers) := by
  obtain ⟨conn, ⟨closed, thrown, _⟩ | ⟨_, rounds, ⟨open_, _, error⟩ | ⟨closed, begun, finish⟩⟩⟩ :=
    execQueries_cases ran
  · exfalso
    rcases begins with open_ | begun
    · rw [open_] at closed
      simp at closed
    · rw [begun] at thrown
      simp at thrown
  · refine ⟨rounds, ?_⟩
    rw [error]
    exact (and_iff_left (Or.inl open_)).symm
  · refine ⟨rounds, ?_⟩
    have notOpen : ¬ db.inTransaction = true := by simp [closed]
    obtain ⟨thrown, _, error⟩ | ⟨ends, _, error⟩ := finish
    · rw [error]
      refine iff_of_false ?_ ?_
      · intro none_
        rw [none_] at thrown
        simp at thrown
      · rintro ⟨none_, _⟩
        rw [none_] at thrown
        simp at thrown
    · have flag : db.isInTransaction = false := by rw [← inTransaction_of_conn conn, closed]
      obtain ⟨_, _, thrown, _⟩ | ⟨_, _, nextConn, _, opened⟩ :=
        beginSync_of_closed conn flag answers.begin
      · rw [begun] at thrown
        simp at thrown
      · rw [error]
        obtain ⟨_, _, returned, ok⟩ | ⟨_, returned, fails⟩ :=
          endSync_of_open nextConn (opened.mpr begun) answers.commit
        · exact iff_of_true returned ⟨ends, Or.inr ok⟩
        · rw [returned]
          refine iff_of_false fails ?_
          rintro ⟨_, inTransaction | ok⟩
          · exact notOpen inTransaction
          · exact fails ok

theorem allOrNothing_iff {db : Database} {answers : ExecAnswers} {sql : List Char}
    {result : ExecResult} (ran : db.execQueries answers sql = some result) :
    db.AllOrNothing result ↔
      db.inTransaction = true ∨ db.NotOpened answers ∨ db.Succeeds answers sql := by
  obtain ⟨conn, steps⟩ := execQueries_cases ran
  unfold AllOrNothing
  cases open_ : db.inTransaction with
  | true =>
      obtain ⟨closed, _⟩ | ⟨_, _, ⟨_, same, _⟩ | ⟨closed, _⟩⟩ := steps
      · rw [open_] at closed
        simp at closed
      · simp [same, open_]
      · rw [open_] at closed
        simp at closed
  | false =>
      have closed : db.isInTransaction = false := by rw [← inTransaction_of_conn conn, open_]
      simp only [Bool.false_eq_true, if_false, false_or]
      obtain ⟨unlocked, ⟨message, fails⟩, thrown, lock, flag⟩ |
        ⟨opens, lock, nextConn, returns, flag⟩ := beginSync_of_closed conn closed answers.begin
      · -- `open_connection()` throws, and nothing is left behind
        obtain ⟨_, _, sameDb, _⟩ | ⟨begins, _⟩ := steps
        · rw [sameDb]
          refine iff_of_true ⟨?_, lock⟩ (Or.inl ⟨unlocked, message, fails⟩)
          simp [inTransaction, flag]
        · exfalso
          rcases begins with inTransaction | none_
          · rw [open_] at inTransaction
            simp at inTransaction
          · rw [none_] at thrown
            simp at thrown
      · have opened : ¬ db.NotOpened answers := by
          rintro ⟨unlocked, message, fails⟩
          exact opens unlocked message fails
        obtain ⟨_, thrown, sameDb, _⟩ | ⟨_, _, ⟨inTransaction, _⟩ | ⟨_, begun, finish⟩⟩ := steps
        · -- `BEGIN` fails with the lock set
          rw [sameDb, lock]
          refine iff_of_false (by simp) ?_
          rintro (notOpened | ⟨_, reopens, replies, _⟩)
          · exact opened notOpened
          · rw [returns.mpr ⟨reopens, replies⟩] at thrown
            simp at thrown
        · rw [open_] at inTransaction
          simp at inTransaction
        · obtain ⟨thrown, sameDb, _⟩ | ⟨ends, sameDb, _⟩ := finish
          · -- an entry fails inside the transaction
            rw [sameDb, lock]
            refine iff_of_false (by simp) ?_
            rintro (notOpened | ⟨_, _, _, accepted, _⟩)
            · exact opened notOpened
            · rw [(execLoop_error_none_iff _ _ _).mpr accepted] at thrown
              simp at thrown
          · rw [sameDb]
            obtain ⟨committed, unlocked, _, ok⟩ | ⟨stays, _, fails⟩ :=
              endSync_of_open nextConn (flag.mpr begun) answers.commit
            · refine iff_of_true ⟨committed, unlocked⟩ (Or.inr ⟨opens, ?_⟩)
              obtain ⟨reopens, replies⟩ := returns.mp begun
              exact ⟨reopens, replies, (execLoop_error_none_iff _ _ _).mp ends, ok⟩
            · rw [stays]
              refine iff_of_false (by simp) ?_
              rintro (notOpened | succeeds)
              · exact opened notOpened
              · exact fails succeeds.2.2.2.2

end Database

def syntaxError : Reply :=
  { status := .fatalError, putCopyData := true, putCopyEnd := true,
    errorMessage := "syntax error" }

def working : BeginAnswers :=
  { unassigned := none, opening := .kept, reopening := .kept, reply := none }

end PqAsync
