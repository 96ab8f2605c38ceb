import PqAsync.TransactionSteps
import PqAsync.Library.Runs

/-!
The lock of a `database_t` and the flag of its connection, over calls that are made one after
another, synchronous and asynchronous.
-/

namespace PqAsync

/-- The calls, each made when nothing is queued, and the runs of the front task: how a
connection is assigned, and the server's reply to the command, if it is there. -/
inductive SessionEvent
  | call (call : Call)
  | begin (answers : BeginAnswers)
  /-- `commit()` or `rollback()` -/
  | endTransaction (reply : Option String)
  | run (connecting : Connecting) (reply : Option (Option String))
  deriving DecidableEq, Repr

def replied : Option (Option String) → Consuming
  | none => .busy
  | some error => .ready error

def Task.sentQuery : Task → Option Query
  | .query waiting true => some waiting
  | _ => none

namespace Database

/-- A null `_conn` ends the program in `commit()` and `rollback()`. -/
def applySession (db : Database) : SessionEvent → Database
  | .call call => if db.strand = [] then db.call call else db
  | .begin answers => if db.strand = [] then (db.beginSync answers).1 else db
  | .endTransaction reply =>
      if db.strand = [] ∧ db.conn = true then (db.endSync reply).1 else db
  | .run connecting reply =>
      db.runFront { connecting, sendError := none, consuming := replied reply }

/-- In a state without queued tasks `_lock` is set if and only if the flag is. -/
def Agrees (db : Database) : Prop := db.strand = [] → db.lock = db.isInTransaction

/-- `open_connection()` returns: a connection is there or assigned, and it opens. -/
def Opens (db : Database) (answers : BeginAnswers) : Prop :=
  (db.conn = false → answers.unassigned = none) ∧ ∀ message, answers.opening ≠ .failed message

def Begun (answers : BeginAnswers) : Prop :=
  (∀ message, answers.reopening ≠ .failed message) ∧ answers.reply = none

/-- A synchronous `begin()` outside a transaction that gets its connection gets its `BEGIN`
through, and no asynchronous `COMMIT` or `ROLLBACK` is answered by an error. -/
def LockSafe (db : Database) : SessionEvent → Prop
  | .begin answers =>
      db.strand = [] → db.isInTransaction = false → db.Opens answers → Begun answers
  | .run _ reply => ∀ query ∈ db.strand.head?.bind Task.sentQuery, query.completion = .ended →
      ∀ message, reply ≠ some (some message)
  | _ => True

def Expects (lock flag : Bool) : Task → Prop
  | .connect (.begin _) => lock = false ∧ flag = false
  | .connect (.sendQuery _ query) => query.completion = .user ∧ lock = flag
  | .bound (.begin _) => False
  | .bound (.sendQuery _ query) => lock = true ∧ expectsQuery query
  | .query query _ => expectsQuery query
  | .refused _ _ => lock = flag
where
  expectsQuery (query : Query) : Prop :=
    match query.completion with
    | .user => lock = flag
    | .began => lock = true ∧ flag = false
    | .ended => lock = true ∧ flag = true

def Grounded (db : Database) : Prop :=
  db.conn = false → db.isInTransaction = false ∧ db.lock = false

structure Phased (db : Database) : Prop where
  grounded : db.Grounded
  single : db.strand = [] ∨ ∃ task, db.strand = [task] ∧ Expects db.lock db.isInTransaction task

theorem Phased.inTransaction {db : Database} (phased : db.Phased) :
    db.inTransaction = db.isInTransaction := by
  cases conn : db.conn with
  | true => exact inTransaction_of_conn conn
  | false => simp [Database.inTransaction, conn, (phased.grounded conn).1]

theorem phased_single {db : Database} {task : Task} (grounded : db.Grounded) (front : db.strand = [task])
    (expects : Expects db.lock db.isInTransaction task) : db.Phased ∧ db.Agrees := by
  constructor
  · exact ⟨grounded, Or.inr ⟨task, front, expects⟩⟩
  · intro empty
    rw [front] at empty
    simp at empty

theorem phased_empty {db : Database} (grounded : db.Grounded)
    (empty : db.strand = []) : db.Phased := ⟨grounded, Or.inl empty⟩

theorem openConnection_phased {db : Database} (grounded : db.Grounded) (empty : db.strand = []) (continuation : Continuation)
    (bound : db.lock = true → Expects db.lock db.isInTransaction (.bound continuation))
    (connect : db.lock = false → Expects db.lock db.isInTransaction (.connect continuation)) :
    (db.openConnection continuation).Phased ∧ (db.openConnection continuation).Agrees := by
  unfold openConnection
  cases locked : db.lock with
  | true =>
      rw [if_pos rfl]
      have front : (db.pushBack (.bound continuation)).strand = [.bound continuation] := by
        simp [pushBack, empty]
      exact phased_single grounded front (bound locked)
  | false =>
      rw [if_neg (by simp)]
      have front : (db.pushBack (.connect continuation)).strand = [.connect continuation] := by
        simp [pushBack, empty]
      exact phased_single grounded front (connect locked)

theorem refused_phased {db : Database} (grounded : db.Grounded)
    (empty : db.strand = []) (agree : db.lock = db.isInTransaction) (call : Nat)
    (message : String) :
    (db.pushBack (.refused call message)).Phased ∧
      (db.pushBack (.refused call message)).Agrees := by
  have front : (db.pushBack (.refused call message)).strand = [.refused call message] := by
    simp [pushBack, empty]
  exact phased_single grounded front agree

theorem endTransaction_phased {db : Database} (phased : db.Phased) (empty : db.strand = [])
    (agree : db.lock = db.isInTransaction) (call : Nat) (sql : String) :
    (db.endTransaction call sql).Phased ∧ (db.endTransaction call sql).Agrees := by
  unfold endTransaction
  cases open_ : db.inTransaction with
  | false =>
      rw [if_neg (by simp)]
      exact refused_phased phased.grounded empty agree _ _
  | true =>
      rw [if_pos rfl]
      rw [phased.inTransaction] at open_
      refine openConnection_phased phased.grounded empty _ ?_ ?_
      · intro locked
        exact ⟨locked, locked, open_⟩
      · intro unlocked
        rw [agree, open_] at unlocked
        simp at unlocked

theorem counted_phased {db : Database} (both : db.Phased ∧ db.Agrees) (count : Nat) :
    ({ db with nextCall := count } : Database).Phased ∧
      ({ db with nextCall := count } : Database).Agrees :=
  ⟨⟨both.1.grounded, both.1.single⟩, both.2⟩

theorem call_phased {db : Database} (phased : db.Phased) (empty : db.strand = [])
    (agree : db.lock = db.isInTransaction) (call : Call) :
    (db.call call).Phased ∧ (db.call call).Agrees := by
  cases call with
  | begin =>
      suffices (db.begin db.nextCall).Phased ∧ (db.begin db.nextCall).Agrees from
        counted_phased this (db.nextCall + 1)
      unfold begin
      cases open_ : db.inTransaction with
      | true =>
          rw [if_pos rfl]
          exact refused_phased phased.grounded empty agree _ _
      | false =>
          rw [if_neg (by simp)]
          rw [phased.inTransaction] at open_
          refine openConnection_phased phased.grounded empty _ ?_ ?_
          · intro locked
            rw [agree, open_] at locked
            simp at locked
          · intro unlocked
            exact ⟨unlocked, open_⟩
  | commit =>
      exact counted_phased (endTransaction_phased phased empty agree db.nextCall "COMMIT") _
  | rollback =>
      exact counted_phased (endTransaction_phased phased empty agree db.nextCall "ROLLBACK") _
  | execute overload sql =>
      have pushed := openConnection_phased phased.grounded empty
        (.sendQuery overload { call := db.nextCall, sql, completion := .user })
        (fun locked => ⟨locked, agree⟩) (fun _ => ⟨rfl, agree⟩)
      exact counted_phased pushed (db.nextCall + 1)

/-- The reply to the query of the front task: lock and flag agree after it, unless it is an
error for a `COMMIT` or `ROLLBACK`. -/
theorem complete_phased_iff {db : Database} (grounded : db.Grounded) (empty : db.strand = []) (query : Query) (error : Option String)
    (expects : Expects.expectsQuery db.lock db.isInTransaction query) :
    (db.complete query error).Phased ∧ ((db.complete query error).Agrees ↔
      (query.completion = .ended → error = none)) := by
  unfold Expects.expectsQuery at expects
  unfold complete
  cases completion : query.completion with
  | user =>
      rw [completion] at expects
      refine ⟨phased_empty grounded empty, ?_⟩
      exact iff_of_true (fun _ => expects) (by simp)
  | began =>
      rw [completion] at expects
      cases error with
      | none =>
          refine ⟨phased_empty ?_ empty, iff_of_true (fun _ => expects.1) (by simp)⟩
          intro noConn
          have unlocked := (grounded noConn).2
          rw [expects.1] at unlocked
          simp at unlocked
      | some message =>
          have unlocked : Grounded { db with lock := false } :=
            fun noConn => ⟨(grounded noConn).1, rfl⟩
          refine ⟨phased_empty unlocked empty, iff_of_true (fun _ => ?_) (by simp)⟩
          exact expects.2.symm
  | ended =>
      rw [completion] at expects
      cases error with
      | none =>
          exact ⟨phased_empty (fun _ => ⟨rfl, rfl⟩) empty, iff_of_true (fun _ => rfl) (by simp)⟩
      | some message =>
          have unlocked : Grounded { db with lock := false } :=
            fun noConn => ⟨(grounded noConn).1, rfl⟩
          refine ⟨phased_empty unlocked empty, iff_of_false ?_ (by simp)⟩
          intro agree
          have same := agree empty
          change false = db.isInTransaction at same
          rw [expects.2] at same
          simp at same

theorem runContinuation_phased {db : Database} (conn : db.conn = true) (empty : db.strand = [])
    (continuation : Continuation)
    (expects : match continuation with
      | .begin _ => db.isInTransaction = false
      | .sendQuery _ query => Expects.expectsQuery db.lock db.isInTransaction query) :
    (db.runContinuation continuation).Phased ∧ (db.runContinuation continuation).Agrees := by
  have grounded : db.Grounded := fun noConn => by simp [conn] at noConn
  cases continuation with
  | begin call =>
      have locked : Grounded { db with lock := true } := fun noConn => by simp [conn] at noConn
      refine @openConnection_phased { db with lock := true } locked empty _ ?_ ?_
      · intro _
        exact ⟨rfl, rfl, expects⟩
      · intro unlocked
        simp at unlocked
  | sendQuery overload query =>
      cases overload with
      | variadic =>
          have front : (db.pushFront (.query query false)).strand = [.query query false] := by
            simp [pushFront, empty]
          exact phased_single grounded front expects
      | parameters =>
          have front : (db.pushBack (.query query false)).strand = [.query query false] := by
            simp [pushBack, empty]
          exact phased_single grounded front expects

theorem failContinuation_phased {db : Database} (grounded : db.Grounded) (empty : db.strand = [])
    (message : String) (continuation : Continuation)
    (expects : Expects db.lock db.isInTransaction (.connect continuation)) :
    (db.failContinuation message continuation).Phased ∧
      (db.failContinuation message continuation).Agrees := by
  cases continuation with
  | begin call => exact ⟨phased_empty grounded empty, fun _ => expects.1.trans expects.2.symm⟩
  | sendQuery overload query =>
      have asked : Expects.expectsQuery db.lock db.isInTransaction query := by
        unfold Expects.expectsQuery
        rw [expects.1]
        exact expects.2
      obtain ⟨phased, agrees⟩ := complete_phased_iff grounded empty query (some message) asked
      refine ⟨phased, agrees.mpr ?_⟩
      rw [expects.1]
      simp

theorem run_phased_iff {db : Database} (phased : db.Phased) (agrees : db.Agrees)
    (connecting : Connecting) (reply : Option (Option String)) :
    (db.applySession (.run connecting reply)).Phased ∧
      ((db.applySession (.run connecting reply)).Agrees ↔ db.LockSafe (.run connecting reply)) := by
  have grounded := phased.grounded
  unfold applySession runFront LockSafe
  rcases phased.single with empty | ⟨task, front, expects⟩
  · simp only [empty]
    exact ⟨phased, iff_of_true agrees (by simp)⟩
  · simp only [front]
    have popped : Grounded { db with strand := [] } := grounded
    cases task with
    | connect continuation =>
        have safe : ∀ query ∈ ([Task.connect continuation].head?.bind Task.sentQuery),
            query.completion = .ended → ∀ message, reply ≠ some (some message) := by
          simp [Task.sentQuery]
        cases connecting with
        | ready =>
            suffices both : (({ db with strand := [], conn := true } :
                Database).runContinuation continuation).Phased ∧
                (({ db with strand := [], conn := true } :
                Database).runContinuation continuation).Agrees from
              ⟨both.1, iff_of_true both.2 safe⟩
            apply runContinuation_phased rfl rfl
            cases continuation with
            | begin call => exact expects.2
            | sendQuery overload query =>
                change Expects.expectsQuery db.lock db.isInTransaction query
                unfold Expects.expectsQuery
                rw [expects.1]
                exact expects.2
        | unassigned => exact ⟨phased, iff_of_true agrees safe⟩
        | failed message =>
            obtain ⟨next, same⟩ :=
              failContinuation_phased popped rfl message continuation expects
            exact ⟨next, iff_of_true same safe⟩
    | bound continuation =>
        have safe : ∀ query ∈ ([Task.bound continuation].head?.bind Task.sentQuery),
            query.completion = .ended → ∀ message, reply ≠ some (some message) := by
          simp [Task.sentQuery]
        cases continuation with
        | begin call => exact absurd expects id
        | sendQuery overload query =>
            have conn : db.conn = true := by
              by_contra noConn
              have unlocked := (grounded (by simpa using noConn)).2
              rw [expects.1] at unlocked
              simp at unlocked
            obtain ⟨next, same⟩ := @runContinuation_phased { db with strand := [] } conn rfl
              (.sendQuery overload query) expects.2
            exact ⟨next, iff_of_true same safe⟩
    | refused call message =>
        refine ⟨phased_empty popped rfl, iff_of_true (fun _ => expects) ?_⟩
        simp [Task.sentQuery]
    | query query sent =>
        cases sent with
        | false =>
            obtain ⟨next, same⟩ := @phased_single { db with
              strand := [.query query true]
              sent := db.sent ++ [{ call := query.call, sql := query.sql }] } _ grounded rfl expects
            exact ⟨next, iff_of_true same (by simp [Task.sentQuery])⟩
        | true =>
            cases reply with
            | none =>
                exact ⟨phased, iff_of_true agrees (by simp)⟩
            | some error =>
                obtain ⟨next, same⟩ := complete_phased_iff popped rfl query error expects
                refine ⟨next, same.trans ?_⟩
                cases error <;> simp [Task.sentQuery]

theorem beginSync_unassigned {db : Database} (noConn : db.conn = false)
    (unlocked : db.lock = false) (answers : BeginAnswers) {message : String}
    (unassigned : answers.unassigned = some message) :
    db.beginSync answers = (db, some message) := by
  simp [beginSync, openConnectionSync, unlocked, noConn, unassigned]

theorem beginSync_assigned {db : Database} (unlocked : db.lock = false) (answers : BeginAnswers)
    (assigned : answers.unassigned = none) :
    db.beginSync answers = ({ db with conn := true } : Database).beginSync answers := by
  have same : db.openConnectionSync answers =
      ({ db with conn := true } : Database).openConnectionSync answers := by
    simp [openConnectionSync, unlocked, assigned]
  unfold beginSync
  rw [same]

theorem beginSync_of_open {db : Database} (locked : db.lock = true)
    (open_ : db.isInTransaction = true) (answers : BeginAnswers) :
    db.beginSync answers = ({ db with lock := true }, some "Already in a transaction!") := by
  unfold beginSync
  rw [openConnectionSync_of_lock locked]
  exact if_pos open_

theorem beginSync_agrees_iff {db : Database} (conn : db.conn = true)
    (closed : db.isInTransaction = false) (unlocked : db.lock = false) (empty : db.strand = [])
    (answers : BeginAnswers) :
    (db.beginSync answers).1.Phased ∧ ((db.beginSync answers).1.Agrees ↔
      ((∀ message, answers.opening ≠ .failed message) → Begun answers)) := by
  have still : (db.beginSync answers).1.strand = [] := (beginSync_strand db answers).trans empty
  obtain ⟨_, ⟨message, fails⟩, _, lock, flag⟩ | ⟨opens, lock, nextConn, returns, flag⟩ :=
    beginSync_of_closed conn closed answers
  · refine ⟨phased_empty (fun _ => ⟨flag, lock⟩) still, iff_of_true ?_ ?_⟩
    · intro _
      rw [lock, flag]
    · intro opens
      exact absurd fails (opens message)
  · refine ⟨phased_empty (fun noConn => by simp [nextConn] at noConn) still, ?_⟩
    unfold Agrees Begun
    rw [← returns, ← flag, lock]
    constructor
    · intro agrees _
      exact (agrees still).symm
    · intro open_ _
      exact (open_ (opens unlocked)).symm

theorem begin_phased_iff {db : Database} (phased : db.Phased) (agrees : db.Agrees)
    (answers : BeginAnswers) :
    (db.applySession (.begin answers)).Phased ∧
      ((db.applySession (.begin answers)).Agrees ↔ db.LockSafe (.begin answers)) := by
  by_cases empty : db.strand = []
  · have step : db.applySession (.begin answers) = (db.beginSync answers).1 := if_pos empty
    rw [step]
    simp only [LockSafe, empty, true_implies]
    have same := agrees empty
    cases open_ : db.isInTransaction with
    | true =>
        rw [open_] at same
        rw [beginSync_of_open same open_]
        refine ⟨phased_empty ?_ empty, iff_of_true (fun _ => open_.symm) (by simp)⟩
        intro noConn
        have closed := (phased.grounded noConn).1
        rw [open_] at closed
        simp at closed
    | false =>
        rw [open_] at same
        simp only [true_implies]
        cases conn : db.conn with
        | true =>
            obtain ⟨next, exact_⟩ := beginSync_agrees_iff conn open_ same empty answers
            refine ⟨next, exact_.trans ?_⟩
            simp [Opens, conn]
        | false =>
            cases assigned : answers.unassigned with
            | some message =>
                rw [beginSync_unassigned conn same answers assigned]
                refine ⟨phased, iff_of_true agrees ?_⟩
                simp [Opens, conn, assigned]
            | none =>
                rw [beginSync_assigned same answers assigned]
                obtain ⟨next, exact_⟩ :=
                  @beginSync_agrees_iff { db with conn := true } rfl open_ same empty answers
                refine ⟨next, exact_.trans ?_⟩
                simp [Opens, assigned]
  · have step : db.applySession (.begin answers) = db := if_neg empty
    rw [step]
    exact ⟨phased, iff_of_true agrees (fun isEmpty => absurd isEmpty empty)⟩

theorem endTransaction_session {db : Database} (phased : db.Phased) (agrees : db.Agrees)
    (reply : Option String) :
    (db.applySession (.endTransaction reply)).Phased ∧
      (db.applySession (.endTransaction reply)).Agrees := by
  by_cases idle : db.strand = [] ∧ db.conn = true
  · have step : db.applySession (.endTransaction reply) = (db.endSync reply).1 := if_pos idle
    rw [step]
    have same := agrees idle.1
    unfold endSync endTransactionSync
    cases open_ : db.isInTransaction with
    | false =>
        rw [if_neg (by simp)]
        exact ⟨phased, agrees⟩
    | true =>
        rw [if_pos rfl]
        cases reply with
        | some message => exact ⟨phased, agrees⟩
        | none =>
            exact ⟨phased_empty (fun _ => ⟨rfl, rfl⟩) idle.1, fun _ => rfl⟩
  · have step : db.applySession (.endTransaction reply) = db := if_neg idle
    rw [step]
    exact ⟨phased, agrees⟩

theorem session_phased_iff {db : Database} (phased : db.Phased) (agrees : db.Agrees)
    (event : SessionEvent) :
    (db.applySession event).Phased ∧ ((db.applySession event).Agrees ↔ db.LockSafe event) := by
  cases event with
  | call call =>
      by_cases empty : db.strand = []
      · have step : db.applySession (.call call) = db.call call := if_pos empty
        rw [step]
        obtain ⟨next, same⟩ := call_phased phased empty (agrees empty) call
        exact ⟨next, iff_of_true same trivial⟩
      · have step : db.applySession (.call call) = db := if_neg empty
        rw [step]
        exact ⟨phased, iff_of_true agrees trivial⟩
  | begin answers => exact begin_phased_iff phased agrees answers
  | endTransaction reply =>
      obtain ⟨next, same⟩ := endTransaction_session phased agrees reply
      exact ⟨next, iff_of_true same trivial⟩
  | run connecting reply => exact run_phased_iff phased agrees connecting reply

/-- `_lock` and the flag of the connection agree in all states without queued tasks exactly
when each step of the run is lock safe. -/
theorem lock_agrees_iff (conn : Bool) (events : List SessionEvent) :
    (∀ reached, reached <+: events →
      (Runs.run applySession (initial conn) reached).Agrees) ↔
      Runs.Meets applySession LockSafe (initial conn) events := by
  have preserved : ∀ (db : Database) (event : SessionEvent), db.Phased → db.Agrees →
      db.LockSafe event → (db.applySession event).Phased := by
    intro db event phased agrees _
    exact (session_phased_iff phased agrees event).1
  apply Runs.always_iff_meets preserved
  · intro db event phased agrees
    exact (session_phased_iff phased agrees event).2
  · exact phased_empty (fun _ => ⟨rfl, rfl⟩) rfl
  · intro _
    rfl

def refused : BeginAnswers :=
  { unassigned := none, opening := .kept, reopening := .kept, reply := some "server closed" }

/-- A `begin()` whose `BEGIN` fails keeps the lock, and a `commit(cb)` whose `COMMIT` fails
lets it go. -/
theorem lock_disagrees :
    let begun := Runs.run applySession (initial true) [.begin refused]
    let events : List SessionEvent := [.begin { refused with reply := none }, .call .commit,
      .run .ready none, .run .ready none, .run .ready (some (some "timeout"))]
    let ended := Runs.run applySession (initial true) events
    (begun.strand = [] ∧ begun.lock = true ∧ begun.isInTransaction = false) ∧
    (ended.strand = [] ∧ ended.lock = false ∧ ended.isInTransaction = true) := by
  decide

end Database

end PqAsync
