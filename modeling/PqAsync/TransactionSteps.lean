import PqAsync.TransactionCore
import Mathlib.Tactic.Common

/-!
What the synchronous transaction functions leave, for a database with a connection.
-/

namespace PqAsync

namespace Database

theorem inTransaction_of_conn {db : Database} (conn : db.conn = true) :
    db.inTransaction = db.isInTransaction := by
  simp [inTransaction, conn]

theorem openConnectionSync_of_lock {db : Database} (locked : db.lock = true)
    (answers : BeginAnswers) : db.openConnectionSync answers = (db, none) := if_pos locked

theorem openConnectionSync_of_conn {db : Database} (conn : db.conn = true)
    (unlocked : db.lock = false) (answers : BeginAnswers) :
    db.openConnectionSync answers = db.reopen answers.opening := by
  have same : { db with conn := true } = db := by rw [← conn]
  unfold openConnectionSync
  rw [if_neg (by simp [unlocked]), conn]
  change ({ db with conn := true } : Database).reopen answers.opening = _
  rw [same]

theorem beginTransaction_of_closed {db : Database} (closed : db.isInTransaction = false)
    (answers : BeginAnswers) :
    (db.beginTransaction answers).1.lock = db.lock ∧
      (db.beginTransaction answers).1.conn = db.conn ∧
      ((db.beginTransaction answers).2 = none ↔
        (∀ message, answers.reopening ≠ .failed message) ∧ answers.reply = none) ∧
      ((db.beginTransaction answers).1.isInTransaction = true ↔
        (db.beginTransaction answers).2 = none) := by
  unfold beginTransaction
  rw [if_neg (by simp [closed])]
  cases answers.reopening with
  | failed message => simp [reopen]
  | kept => cases answers.reply <;> simp [reopen, closed]
  | connected => cases answers.reply <;> simp [reopen]

/-- `begin()` when a connection is there and no transaction is open: it leaves the database
without lock and transaction when the connection cannot be opened; otherwise the lock is set,
and the flag exactly when `BEGIN` works. -/
theorem beginSync_of_closed {db : Database} (conn : db.conn = true)
    (closed : db.isInTransaction = false) (answers : BeginAnswers) :
    (db.lock = false ∧ (∃ message, answers.opening = .failed message) ∧
      (db.beginSync answers).2.isSome = true ∧ (db.beginSync answers).1.lock = false ∧
      (db.beginSync answers).1.isInTransaction = false) ∨
    ((db.lock = false → ∀ message, answers.opening ≠ .failed message) ∧
      (db.beginSync answers).1.lock = true ∧ (db.beginSync answers).1.conn = true ∧
      ((db.beginSync answers).2 = none ↔
        (∀ message, answers.reopening ≠ .failed message) ∧ answers.reply = none) ∧
      ((db.beginSync answers).1.isInTransaction = true ↔
        (db.beginSync answers).2 = none)) := by
  have begun : ∀ next : Database, next.conn = true → next.isInTransaction = false →
      db.openConnectionSync answers = (next, none) →
      (db.beginSync answers).1.lock = true ∧ (db.beginSync answers).1.conn = true ∧
      ((db.beginSync answers).2 = none ↔
        (∀ message, answers.reopening ≠ .failed message) ∧ answers.reply = none) ∧
      ((db.beginSync answers).1.isInTransaction = true ↔ (db.beginSync answers).2 = none) := by
    intro next nextConn nextClosed opened
    obtain ⟨lock, same, returns, flag⟩ :=
      @beginTransaction_of_closed { next with lock := true } nextClosed answers
    unfold beginSync
    rw [opened]
    exact ⟨lock, same.trans nextConn, returns, flag⟩
  cases locked : db.lock with
  | true =>
      right
      refine ⟨by simp, ?_⟩
      exact begun db conn closed (openConnectionSync_of_lock locked answers)
  | false =>
      have opened := openConnectionSync_of_conn conn locked answers
      cases opening : answers.opening with
      | failed message =>
          left
          have thrown : db.beginSync answers =
              ({ db with isInTransaction := false }, some message) := by
            unfold beginSync
            rw [opened, opening]
            rfl
          rw [thrown]
          exact ⟨rfl, ⟨message, rfl⟩, rfl, locked, rfl⟩
      | kept =>
          right
          refine ⟨by simp, ?_⟩
          exact begun db conn closed (by rw [opened, opening]; rfl)
      | connected =>
          right
          refine ⟨by simp, ?_⟩
          exact begun { db with isInTransaction := false } conn rfl (by rw [opened, opening]; rfl)

theorem endSync_of_open {db : Database} (conn : db.conn = true)
    (open_ : db.isInTransaction = true) (reply : Option String) :
    ((db.endSync reply).1.inTransaction = false ∧ (db.endSync reply).1.lock = false ∧
      (db.endSync reply).2 = none ∧ reply = none) ∨
    (db.endSync reply).1.inTransaction = true ∧ (db.endSync reply).2 = reply ∧
      reply ≠ none := by
  unfold endSync endTransactionSync
  rw [if_pos open_]
  cases reply with
  | none => simp [inTransaction]
  | some message => simp [inTransaction, conn, open_]

@[simp] theorem reopen_strand (db : Database) (reopening : Reopening) :
    (db.reopen reopening).1.strand = db.strand := by
  cases reopening <;> rfl

@[simp] theorem openConnectionSync_strand (db : Database) (answers : BeginAnswers) :
    (db.openConnectionSync answers).1.strand = db.strand := by
  unfold openConnectionSync
  split
  · rfl
  · split
    · rfl
    · simp

@[simp] theorem beginTransaction_strand (db : Database) (answers : BeginAnswers) :
    (db.beginTransaction answers).1.strand = db.strand := by
  have reopened := reopen_strand db answers.reopening
  unfold beginTransaction
  split
  · rfl
  · generalize db.reopen answers.reopening = next at reopened ⊢
    obtain ⟨next, error⟩ := next
    cases error with
    | some message => exact reopened
    | none => cases answers.reply <;> exact reopened

@[simp] theorem beginSync_strand (db : Database) (answers : BeginAnswers) :
    (db.beginSync answers).1.strand = db.strand := by
  have opened := openConnectionSync_strand db answers
  unfold beginSync
  generalize db.openConnectionSync answers = next at opened ⊢
  obtain ⟨next, error⟩ := next
  cases error with
  | some message => exact opened
  | none => exact (beginTransaction_strand _ _).trans opened

end Database

end PqAsync
