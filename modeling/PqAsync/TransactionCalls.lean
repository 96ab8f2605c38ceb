import PqAsync.ExecCore
import PqAsync.PoolSteps
import PqAsync.SyncCore

/-!
The six functions of a connection that send a transaction or savepoint command: which of them
raise exactly when the command fails, and what a run of them leaves in `is_in_transaction`.
-/

namespace PqAsync

inductive TransactionCommand
  | begin
  | commit
  | rollback
  | setSavepoint
  | releaseSavepoint
  | rollbackSavepoint
  deriving DecidableEq, Repr

/-- A call, and what it meets: the answers while a connection is opened, and the status of the
reply if the command is sent. -/
structure TransactionCall where
  command : TransactionCommand
  now : Int
  dial : Dial
  reply : ExecStatus
  deriving DecidableEq, Repr

namespace Connection

def perform (conn : Connection) (call : TransactionCall) : Connection × Bool :=
  let accepted := call.reply = .commandOk
  match call.command with
  | .begin => conn.beginTransaction call.now call.dial accepted
  | .commit => conn.endTransaction call.now accepted
  | .rollback => conn.endTransaction call.now accepted
  | .setSavepoint => conn.savepoint call.now accepted
  | .releaseSavepoint => conn.savepoint call.now accepted
  | .rollbackSavepoint => conn.rollbackSavepoint call.now

def after (conn : Connection) (call : TransactionCall) : Connection := (conn.perform call).1

def permits (conn : Connection) : TransactionCommand → Bool
  | .begin => !conn.isInTransaction
  | _ => conn.isInTransaction

/-- The server was asked, which takes an open connection, and its reply is `COMMAND_OK`. -/
def accepts (conn : Connection) (call : TransactionCall) : Prop :=
  (call.command = .begin → (conn.openConnection call.now call.dial).2 = true) ∧
    call.reply = .commandOk

/-- The call returns exactly if it is permitted and the server accepts its command; otherwise
it throws, and `is_in_transaction` is as it was. -/
structure RaisesOnFailure (conn : Connection) (call : TransactionCall) : Prop where
  returns_iff : (conn.perform call).2 = true ↔
    conn.permits call.command = true ∧ conn.accepts call
  unchanged : (conn.perform call).2 = false →
    (conn.after call).isInTransaction = conn.isInTransaction

/-- A permitted `rollback_savepoint` that the server refuses. -/
def SwallowsFailure (conn : Connection) (call : TransactionCall) : Prop :=
  call.command = .rollbackSavepoint ∧ conn.isInTransaction = true ∧ call.reply ≠ .commandOk

/-- The commands of a run whose calls returned, in the order of the calls. -/
def returned (conn : Connection) : List TransactionCall → List TransactionCommand
  | [] => []
  | call :: calls =>
      if (conn.perform call).2 then call.command :: (conn.after call).returned calls
      else (conn.after call).returned calls

end Connection

/-- What a command that returned has made of `is_in_transaction`. -/
def TransactionCommand.leaves : TransactionCommand → Option Bool
  | .begin => some true
  | .commit => some false
  | .rollback => some false
  | .setSavepoint => none
  | .releaseSavepoint => none
  | .rollbackSavepoint => none

namespace Connection

theorem openConnection_isInTransaction (conn : Connection) (now : Int) (dial : Dial)
    (outside : conn.isInTransaction = false) :
    (conn.openConnection now dial).1.isInTransaction = false := by
  unfold openConnection closeConnection
  cases opened : conn.opened <;> cases broken : dial.broken <;> simp [opened, touch, outside]

theorem beginTransaction_returns (conn : Connection) (now : Int) (dial : Dial) (reply : Bool) :
    (conn.beginTransaction now dial reply).2 =
      (!conn.isInTransaction && (conn.openConnection now dial).2 && reply) := by
  unfold beginTransaction
  cases inside : conn.isInTransaction with
  | true => rfl
  | false =>
      obtain ⟨opening, isOpen⟩ := conn.openConnection now dial
      cases isOpen <;> rfl

theorem beginTransaction_isInTransaction (conn : Connection) (now : Int) (dial : Dial)
    (reply : Bool) : (conn.beginTransaction now dial reply).1.isInTransaction =
      (conn.isInTransaction || (conn.openConnection now dial).2 && reply) := by
  unfold beginTransaction
  cases inside : conn.isInTransaction with
  | true => exact inside
  | false =>
      have outside := conn.openConnection_isInTransaction now dial inside
      generalize conn.openConnection now dial = result at outside ⊢
      obtain ⟨opening, isOpen⟩ := result
      cases isOpen with
      | true => rfl
      | false => exact outside

theorem endTransaction_returns (conn : Connection) (now : Int) (reply : Bool) :
    (conn.endTransaction now reply).2 = (conn.isInTransaction && reply) := by
  obtain ⟨res, running, isInTransaction, opened, owner, date⟩ := conn
  cases isInTransaction <;> rfl

theorem endTransaction_isInTransaction (conn : Connection) (now : Int) (reply : Bool) :
    (conn.endTransaction now reply).1.isInTransaction = (conn.isInTransaction && !reply) := by
  obtain ⟨res, running, isInTransaction, opened, owner, date⟩ := conn
  cases isInTransaction <;> rfl

theorem perform_returns_iff (conn : Connection) (call : TransactionCall) :
    (conn.perform call).2 = true ↔ conn.permits call.command = true ∧
      (conn.accepts call ∨ call.command = .rollbackSavepoint) := by
  obtain ⟨command, now, dial, reply⟩ := call
  cases command with
  | begin => simp [perform, permits, accepts, beginTransaction_returns, and_assoc]
  | commit | rollback => simp [perform, permits, accepts, endTransaction_returns]
  | setSavepoint | releaseSavepoint => simp [perform, permits, accepts, savepoint]
  | rollbackSavepoint => simp [perform, permits, rollbackSavepoint]

theorem after_isInTransaction (conn : Connection) (call : TransactionCall) :
    (conn.after call).isInTransaction =
      if (conn.perform call).2 then call.command.leaves.getD conn.isInTransaction
      else conn.isInTransaction := by
  obtain ⟨command, now, dial, reply⟩ := call
  cases command with
  | begin =>
      simp only [after, perform, beginTransaction_isInTransaction, beginTransaction_returns]
      cases conn.isInTransaction <;> simp [TransactionCommand.leaves]
  | commit | rollback =>
      simp only [after, perform, endTransaction_isInTransaction, endTransaction_returns]
      cases conn.isInTransaction <;> simp [TransactionCommand.leaves]
  | setSavepoint | releaseSavepoint | rollbackSavepoint =>
      exact (ite_self conn.isInTransaction).symm

theorem raisesOnFailure_iff (conn : Connection) (call : TransactionCall) :
    conn.RaisesOnFailure call ↔ ¬ conn.SwallowsFailure call := by
  constructor
  · rintro ⟨returns, -⟩ ⟨isRollback, inside, refused⟩
    have permitted : conn.permits call.command = true := by rw [isRollback]; exact inside
    have isReturned := (conn.perform_returns_iff call).mpr ⟨permitted, Or.inr isRollback⟩
    exact refused (returns.mp isReturned).2.2
  · intro raises
    refine ⟨?_, ?_⟩
    · rw [perform_returns_iff]
      refine and_congr_right fun permitted => or_iff_left_of_imp fun isRollback => ?_
      have inside : conn.isInTransaction = true := by rwa [isRollback] at permitted
      refine ⟨fun isBegin => ?_, ?_⟩
      · rw [isRollback] at isBegin
        cases isBegin
      · by_contra refused
        exact raises ⟨isRollback, inside, refused⟩
    · intro threw
      rw [after_isInTransaction, threw]
      rfl

theorem run_isInTransaction (conn : Connection) (calls : List TransactionCall) :
    (Runs.run after conn calls).isInTransaction =
      ((conn.returned calls).filterMap TransactionCommand.leaves).getLast?.getD
        conn.isInTransaction := by
  induction calls generalizing conn with
  | nil => rfl
  | cons call calls ih =>
      rw [Runs.run_cons, ih, returned, after_isInTransaction]
      cases (conn.perform call).2 with
      | false => simp
      | true =>
          cases leaves : call.command.leaves with
          | none => simp [leaves]
          | some flag => simp [leaves, List.getLast?_cons]

/-- Every call of the run raises exactly on failure, and `is_in_transaction` is set after it
exactly if the last `begin`, `commit` or `rollback` that returned was a `begin`. -/
structure TransactionLaw (conn : Connection) (calls : List TransactionCall) : Prop where
  raises : Runs.Meets after RaisesOnFailure conn calls
  flag : (Runs.run after conn calls).isInTransaction =
    ((conn.returned calls).filterMap TransactionCommand.leaves).getLast?.getD
      conn.isInTransaction

theorem transactionLaw_iff (conn : Connection) (calls : List TransactionCall) :
    conn.TransactionLaw calls ↔
      Runs.Meets after (fun conn call => ¬ conn.SwallowsFailure call) conn calls := by
  have same : Runs.Meets after RaisesOnFailure conn calls ↔
      Runs.Meets after (fun conn call => ¬ conn.SwallowsFailure call) conn calls :=
    Runs.meets_congr (fun _ => True) (fun _ _ _ => trivial)
      (fun conn call _ => conn.raisesOnFailure_iff call) trivial calls
  rw [← same]
  exact ⟨TransactionLaw.raises, fun raises => ⟨raises, conn.run_isInTransaction calls⟩⟩

theorem refused_rollback_savepoint : ¬ ∀ conn calls, TransactionLaw conn calls := by
  intro law
  have raises := (law (Connection.new 0)
    [⟨.begin, 1, ⟨false, true, true⟩, .commandOk⟩,
      ⟨.rollbackSavepoint, 2, ⟨false, true, true⟩, .fatalError⟩]).raises.2.1
  exact (raisesOnFailure_iff _ _).mp raises ⟨rfl, rfl, by decide⟩

end Connection

end PqAsync
