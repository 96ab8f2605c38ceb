import PqAsync.StrandCore
import Mathlib.Algebra.GroupWithZero.Nat
import Mathlib.Data.List.Basic

/-!
The order in which the queued calls of a `database_t` will be sent, what a run of the front
task and a call do to it, and when the commands are sent in the order of the calls.
-/

namespace PqAsync

/-- The call whose query is pushed in front when the continuation gets its lock. -/
def Continuation.next : Continuation → Option Nat
  | .sendQuery .variadic query => some query.call
  | _ => none

def Continuation.later : Continuation → Option Nat
  | .sendQuery .parameters query => some query.call
  | .begin call => some call
  | _ => none

def Task.next : Task → Option Nat
  | .connect continuation => continuation.next
  | .bound continuation => continuation.next
  | .query waiting false => some waiting.call
  | _ => none

def Task.later : Task → Option Nat
  | .connect continuation => continuation.later
  | .bound continuation => continuation.later
  | _ => none

def Continuation.runs : Continuation → Nat
  | .sendQuery _ _ => 2
  | .begin _ => 3

def Task.runs : Task → Nat
  | .connect continuation => continuation.runs + 1
  | .bound continuation => continuation.runs + 1
  | .query _ false => 2
  | .query _ true => 1
  | .refused _ _ => 1

namespace Database

def sentCalls (db : Database) : List Nat := db.sent.map Sent.call

def waiting (db : Database) : List Nat := db.strand.filterMap Task.later

def sendOrder (db : Database) : List Nat :=
  db.sentCalls ++ db.strand.filterMap Task.next ++ db.waiting

def direct (db : Database) : Call → Bool
  | .begin => false
  | .commit => db.inTransaction
  | .rollback => db.inTransaction
  | .execute overload _ => overload = .variadic

/-- A call that is pushed in front is made when no earlier one has to go to the back. -/
def InTurn (db : Database) : Event → Prop
  | .call call => db.direct call = true → db.waiting = []
  | .run _ => True

instance (db : Database) (event : Event) : Decidable (db.InTurn event) :=
  match event with
  | .call _ => inferInstanceAs (Decidable (_ → _))
  | .run _ => isTrue trivial

/-- The event does not run the front task into a failed connection. -/
def Connects (_ : Database) : Event → Prop
  | .call _ => True
  | .run outcome => ∀ message, outcome.connecting ≠ .failed message

def Ordered (db : Database) : Prop := db.sendOrder.Pairwise (· < ·)

def Numbered (db : Database) : Prop := ∀ call ∈ db.sendOrder, call < db.nextCall

@[simp] theorem complete_strand (db : Database) (query : Query) (error : Option String) :
    (db.complete query error).strand = db.strand := by
  unfold complete
  split <;> rfl

@[simp] theorem complete_sent (db : Database) (query : Query) (error : Option String) :
    (db.complete query error).sent = db.sent := by
  unfold complete
  split <;> rfl

@[simp] theorem complete_nextCall (db : Database) (query : Query) (error : Option String) :
    (db.complete query error).nextCall = db.nextCall := by
  unfold complete
  split <;> rfl

@[simp] theorem failContinuation_strand (db : Database) (message : String)
    (continuation : Continuation) :
    (db.failContinuation message continuation).strand = db.strand := by
  cases continuation <;> simp [failContinuation, callback]

@[simp] theorem failContinuation_sent (db : Database) (message : String)
    (continuation : Continuation) :
    (db.failContinuation message continuation).sent = db.sent := by
  cases continuation <;> simp [failContinuation, callback]

@[simp] theorem failContinuation_nextCall (db : Database) (message : String)
    (continuation : Continuation) :
    (db.failContinuation message continuation).nextCall = db.nextCall := by
  cases continuation <;> simp [failContinuation, callback]

theorem completeAll_kept {α : Type} (field : Database → α) (query : Query)
    (kept : ∀ db error, field (complete db query error) = field db) (db : Database)
    (results : List (Option String)) : field (db.completeAll query results) = field db := by
  unfold completeAll
  induction results generalizing db with
  | nil => rfl
  | cons error results ih => exact (ih _).trans (kept db error)

@[simp] theorem completeAll_strand (db : Database) (query : Query)
    (results : List (Option String)) : (db.completeAll query results).strand = db.strand :=
  completeAll_kept strand query (fun db => complete_strand db query) db results

@[simp] theorem completeAll_sent (db : Database) (query : Query)
    (results : List (Option String)) : (db.completeAll query results).sent = db.sent :=
  completeAll_kept sent query (fun db => complete_sent db query) db results

@[simp] theorem completeAll_nextCall (db : Database) (query : Query)
    (results : List (Option String)) : (db.completeAll query results).nextCall = db.nextCall :=
  completeAll_kept nextCall query (fun db => complete_nextCall db query) db results

theorem runContinuation_order (db : Database) (continuation : Continuation) :
    (db.runContinuation continuation).sendOrder =
      db.sentCalls ++ (continuation.next.toList ++ db.strand.filterMap Task.next) ++
        (continuation.later.toList ++ db.waiting) := by
  cases continuation with
  | sendQuery overload query =>
      cases overload with
      | variadic => rfl
      | parameters =>
          simp [runContinuation, pushBack, sendOrder, sentCalls, waiting, Continuation.next,
            Continuation.later, Task.next, Task.later, List.filterMap_append]
  | begin call =>
      simp [runContinuation, openConnection, pushBack, sendOrder, sentCalls, waiting,
        Continuation.next, Continuation.later, Task.next, Task.later, List.filterMap_append]

@[simp] theorem runContinuation_nextCall (db : Database) (continuation : Continuation) :
    (db.runContinuation continuation).nextCall = db.nextCall := by
  cases continuation with
  | sendQuery overload query => cases overload <;> rfl
  | begin call => rfl

theorem sendOrder_cons (db : Database) (task : Task) (rest : List Task)
    (front : db.strand = task :: rest) :
    db.sendOrder = db.sentCalls ++ (task.next.toList ++ rest.filterMap Task.next) ++
      (task.later.toList ++ rest.filterMap Task.later) := by
  simp only [sendOrder, waiting, front, List.filterMap_cons]
  cases task.next <;> cases task.later <;> rfl

theorem runFront_order (db : Database) (outcome : Outcome) :
    (db.runFront outcome).sendOrder = db.sendOrder ∨
      (∃ message, outcome.connecting = .failed message) ∧
        List.Sublist (db.runFront outcome).sendOrder db.sendOrder := by
  cases front : db.strand with
  | nil => exact Or.inl (by simp only [runFront, front])
  | cons task rest =>
      cases task with
      | connect continuation =>
          cases connecting : outcome.connecting with
          | ready =>
              left
              simp only [runFront, front, connecting]
              rw [runContinuation_order, sendOrder_cons db _ rest front]
              rfl
          | unassigned =>
              left
              simp only [runFront, front, connecting]
          | failed message =>
              right
              refine ⟨⟨message, rfl⟩, ?_⟩
              simp only [runFront, front, connecting]
              rw [sendOrder_cons db _ rest front]
              simp only [sendOrder, sentCalls, waiting, failContinuation_strand,
                failContinuation_sent]
              exact ((List.Sublist.refl _).append (List.sublist_append_right _ _)).append
                (List.sublist_append_right _ _)
      | bound continuation =>
          left
          simp only [runFront, front]
          rw [runContinuation_order, sendOrder_cons db _ rest front]
          rfl
      | refused call message =>
          left
          simp only [runFront, front]
          rw [sendOrder_cons db _ rest front]
          rfl
      | query query sent =>
          left
          cases sent with
          | false =>
              cases sendError : outcome.sendError with
              | none =>
                  simp only [runFront, front, sendError]
                  rw [sendOrder_cons db _ rest front]
                  simp [sendOrder, sentCalls, waiting, List.filterMap_cons, Task.next, Task.later]
              | some message =>
                  simp only [runFront, front, sendError]
                  simp only [sendOrder, sentCalls, waiting, complete_strand, complete_sent]
          | true =>
              cases consuming : outcome.consuming with
              | ready error =>
                  simp only [runFront, front, consuming]
                  rw [sendOrder_cons db _ rest front]
                  simp [sendOrder, sentCalls, waiting, Task.next, Task.later]
              | busy => simp only [runFront, front, consuming]
              | failed message =>
                  simp only [runFront, front, consuming]
                  simp only [sendOrder, sentCalls, waiting, complete_strand, complete_sent]

@[simp] theorem runFront_nextCall (db : Database) (outcome : Outcome) :
    (db.runFront outcome).nextCall = db.nextCall := by
  unfold runFront
  split
  · rfl
  · split <;> simp
  · simp
  · rfl
  · split <;> simp
  · split <;> simp

theorem openConnection_order (db : Database) (continuation : Continuation) :
    (db.openConnection continuation).sendOrder =
      db.sentCalls ++ (db.strand.filterMap Task.next ++ continuation.next.toList) ++
        (db.waiting ++ continuation.later.toList) := by
  have queued (task : Task) (sameNext : task.next = continuation.next)
      (sameLater : task.later = continuation.later) :
      (db.pushBack task).sendOrder =
        db.sentCalls ++ (db.strand.filterMap Task.next ++ continuation.next.toList) ++
          (db.waiting ++ continuation.later.toList) := by
    simp only [sendOrder, sentCalls, waiting, pushBack, List.filterMap_append,
      List.filterMap_cons, List.filterMap_nil, sameNext, sameLater]
    cases continuation.next <;> cases continuation.later <;> rfl
  unfold openConnection
  split
  · exact queued (.bound continuation) rfl rfl
  · exact queued (.connect continuation) rfl rfl

theorem refused_order (db : Database) (call : Nat) (message : String) :
    (db.pushBack (.refused call message)).sendOrder = db.sendOrder := by
  simp [sendOrder, sentCalls, waiting, pushBack, List.filterMap_cons, Task.next, Task.later]

theorem endTransaction_order (db : Database) (call : Nat) (sql : String) :
    (db.endTransaction call sql).sendOrder =
      if db.inTransaction then
        db.sentCalls ++ (db.strand.filterMap Task.next ++ [call]) ++ db.waiting
      else db.sendOrder := by
  unfold endTransaction
  split
  · rw [openConnection_order]
    simp [Continuation.next, Continuation.later]
  · exact refused_order db call _

theorem call_order (db : Database) (call : Call) :
    (db.direct call = false ∧
      ((db.call call).sendOrder = db.sendOrder ∨
        (db.call call).sendOrder = db.sendOrder ++ [db.nextCall])) ∨
    (db.direct call = true ∧ (db.call call).sendOrder =
      db.sentCalls ++ (db.strand.filterMap Task.next ++ [db.nextCall]) ++ db.waiting) := by
  cases call with
  | begin =>
      refine Or.inl ⟨rfl, ?_⟩
      change (db.begin db.nextCall).sendOrder = _ ∨ (db.begin db.nextCall).sendOrder = _
      unfold begin
      split
      · exact Or.inl (refused_order db _ _)
      · refine Or.inr ?_
        rw [openConnection_order]
        simp [Continuation.next, Continuation.later, sendOrder]
  | commit =>
      have order := endTransaction_order db db.nextCall "COMMIT"
      cases open_ : db.inTransaction with
      | false =>
          rw [open_] at order
          exact Or.inl ⟨open_, Or.inl order⟩
      | true =>
          rw [open_] at order
          exact Or.inr ⟨open_, order⟩
  | rollback =>
      have order := endTransaction_order db db.nextCall "ROLLBACK"
      cases open_ : db.inTransaction with
      | false =>
          rw [open_] at order
          exact Or.inl ⟨open_, Or.inl order⟩
      | true =>
          rw [open_] at order
          exact Or.inr ⟨open_, order⟩
  | execute overload sql =>
      have order := openConnection_order db
        (.sendQuery overload { call := db.nextCall, sql, completion := .user })
      cases overload with
      | variadic =>
          refine Or.inr ⟨rfl, order.trans ?_⟩
          simp [Continuation.next, Continuation.later]
      | parameters =>
          refine Or.inl ⟨rfl, Or.inr (order.trans ?_)⟩
          simp [Continuation.next, Continuation.later, sendOrder]

@[simp] theorem call_nextCall (db : Database) (call : Call) :
    (db.call call).nextCall = db.nextCall + 1 := rfl

theorem Numbered.apply {db : Database} (numbered : db.Numbered) (event : Event) :
    (db.apply event).Numbered := by
  cases event with
  | call call =>
      intro member found
      have bound : member = db.nextCall ∨ member ∈ db.sendOrder := by
        obtain ⟨_, order | order⟩ | ⟨_, order⟩ := db.call_order call
        · exact Or.inr (by simpa [Database.apply, order] using found)
        · simpa [Database.apply, order, or_comm] using found
        · simp only [Database.apply, order, List.mem_append, List.mem_singleton] at found
          simp only [sendOrder, List.mem_append]
          tauto
      change member < db.nextCall + 1
      rcases bound with rfl | earlier
      · omega
      · exact Nat.lt_succ_of_lt (numbered member earlier)
  | run outcome =>
      intro member found
      change member < (db.runFront outcome).nextCall
      rw [runFront_nextCall]
      obtain same | ⟨_, part⟩ := db.runFront_order outcome
      · exact numbered member (same ▸ found)
      · exact numbered member (part.subset found)

theorem Numbered.ordered_call {db : Database} (numbered : db.Numbered) (ordered : db.Ordered)
    (call : Call) : (db.call call).Ordered ↔ db.InTurn (.call call) := by
  have atEnd : (db.sendOrder ++ [db.nextCall]).Pairwise (· < ·) :=
    List.pairwise_append.mpr ⟨ordered, List.pairwise_singleton _ _, fun member found last isLast => by
      rw [List.mem_singleton.mp isLast]
      exact numbered member found⟩
  obtain ⟨notDirect, order | order⟩ | ⟨direct, order⟩ := db.call_order call
  · simp only [Ordered, order, InTurn, notDirect]
    exact ⟨fun _ impossible => by simp at impossible, fun _ => ordered⟩
  · simp only [Ordered, order, InTurn, notDirect]
    exact ⟨fun _ impossible => by simp at impossible, fun _ => atEnd⟩
  · simp only [Ordered, order, InTurn, direct, forall_const]
    constructor
    · intro pairs
      cases waits : db.waiting with
      | nil => rfl
      | cons first rest =>
          have earlier : first < db.nextCall :=
            numbered first (by simp [sendOrder, waits])
          have inverted : db.nextCall < first :=
            (List.pairwise_append.mp pairs).2.2 db.nextCall (by simp) first (by simp [waits])
          omega
    · intro empty
      rw [empty]
      simpa [sendOrder, empty] using atEnd

theorem not_ordered_call {db : Database} (call : Call) (broken : ¬ db.Ordered) :
    ¬ (db.call call).Ordered := by
  intro ordered
  apply broken
  have part : List.Sublist db.sendOrder (db.call call).sendOrder := by
    obtain ⟨_, order | order⟩ | ⟨_, order⟩ := db.call_order call
    · rw [order]
    · rw [order]
      exact List.sublist_append_left _ _
    · rw [order]
      exact ((List.Sublist.refl _).append (List.sublist_append_left _ _)).append
        (List.Sublist.refl _)
  exact List.Pairwise.sublist part ordered

theorem runFront_order_of_connects {db : Database} {outcome : Outcome}
    (connects : db.Connects (.run outcome)) :
    (db.runFront outcome).sendOrder = db.sendOrder := by
  obtain same | ⟨⟨message, failed⟩, _⟩ := db.runFront_order outcome
  · exact same
  · exact absurd failed (connects message)

theorem Ordered.apply {db : Database} (numbered : db.Numbered) (ordered : db.Ordered)
    (event : Event) (inTurn : db.InTurn event) : (db.apply event).Ordered := by
  cases event with
  | call call => exact (numbered.ordered_call ordered call).mpr inTurn
  | run outcome =>
      obtain same | ⟨_, part⟩ := db.runFront_order outcome
      · simpa [Ordered, Database.apply, same] using ordered
      · exact List.Pairwise.sublist part ordered

theorem initial_numbered (conn : Bool) : (initial conn).Numbered := by
  intro call found
  simp [sendOrder, sentCalls, waiting, initial] at found

theorem initial_ordered (conn : Bool) : (initial conn).Ordered := List.Pairwise.nil

theorem run_ordered {db : Database} (numbered : db.Numbered) (ordered : db.Ordered)
    {events : List Event} (inTurn : Runs.Meets apply InTurn db events) :
    (Runs.run apply db events).Numbered ∧ (Runs.run apply db events).Ordered :=
  inTurn.invariant (fun db => db.Numbered ∧ db.Ordered)
    (fun _ event both meets => ⟨both.1.apply event, both.2.apply both.1 event meets⟩)
    ⟨numbered, ordered⟩

theorem run_ordered_iff {db : Database} (numbered : db.Numbered) (ordered : db.Ordered)
    {events : List Event} (connects : Runs.Meets apply Connects db events) :
    (Runs.run apply db events).Ordered ↔ Runs.Meets apply InTurn db events := by
  have exact_ : ∀ (db : Database) (event : Event), db.Numbered → db.Connects event → db.Ordered →
      ((db.apply event).Ordered ↔ db.InTurn event) := by
    intro db event numbered connects ordered
    cases event with
    | call call => exact numbered.ordered_call ordered call
    | run outcome =>
        have same : (db.apply (.run outcome)).Ordered := by
          simpa [Ordered, apply, runFront_order_of_connects connects] using ordered
        exact iff_of_true same trivial
  have lost : ∀ (db : Database) (event : Event), db.Numbered → db.Connects event → ¬ db.Ordered →
      ¬ (db.apply event).Ordered := by
    intro db event _ connects broken
    cases event with
    | call call => exact not_ordered_call call broken
    | run outcome => simpa [Ordered, apply, runFront_order_of_connects connects] using broken
  have runs := Runs.good_iff_meets (fun db event numbered _ => Numbered.apply numbered event)
    exact_ lost numbered connects
  simpa only [ordered, true_and] using runs

def remainingRuns (db : Database) : Nat := (db.strand.map Task.runs).sum

theorem runContinuation_remainingRuns (db : Database) (continuation : Continuation) :
    (db.runContinuation continuation).remainingRuns = db.remainingRuns + continuation.runs := by
  cases continuation with
  | sendQuery overload query =>
      cases overload with
      | variadic =>
          simp only [remainingRuns, runContinuation, pushFront, List.map_cons, List.sum_cons,
            Task.runs, Continuation.runs]
          omega
      | parameters =>
          simp [remainingRuns, runContinuation, pushBack, Task.runs, Continuation.runs]
  | begin call =>
      simp [remainingRuns, runContinuation, openConnection, pushBack, Task.runs,
        Continuation.runs]

theorem runFront_remainingRuns (db : Database) (queued : db.strand ≠ []) :
    (db.runFront .ok).remainingRuns + 1 = db.remainingRuns := by
  obtain ⟨task, rest, front⟩ := List.exists_cons_of_ne_nil queued
  have total : db.remainingRuns = task.runs + (rest.map Task.runs).sum := by
    simp [remainingRuns, front]
  rw [total]
  cases task with
  | connect continuation =>
      simp only [runFront, front, Outcome.ok]
      rw [runContinuation_remainingRuns]
      simp only [remainingRuns, Task.runs]
      omega
  | bound continuation =>
      simp only [runFront, front]
      rw [runContinuation_remainingRuns]
      simp only [remainingRuns, Task.runs]
      omega
  | refused call message =>
      simp only [runFront, front, callback, remainingRuns, Task.runs]
      omega
  | query query sent =>
      cases sent with
      | false =>
          simp only [runFront, front, Outcome.ok, remainingRuns, Task.runs, List.map_cons,
            List.sum_cons]
          omega
      | true =>
          simp only [runFront, front, Outcome.ok, remainingRuns, Task.runs, completeAll_strand]
          omega

def drain (db : Database) : List Event := List.replicate db.remainingRuns (.run .ok)

theorem drain_strand (db : Database) : (Runs.run apply db db.drain).strand = [] := by
  unfold drain
  generalize count : db.remainingRuns = runs
  induction runs generalizing db with
  | zero =>
      cases front : db.strand with
      | nil => exact front
      | cons task rest =>
          have positive := runFront_remainingRuns db (by simp [front])
          omega
  | succ runs ih =>
      have queued : db.strand ≠ [] := by
        intro empty
        simp [remainingRuns, empty] at count
      have fewer := runFront_remainingRuns db queued
      exact ih (db.runFront .ok) (by omega)

theorem drain_connects (db : Database) : Runs.Meets apply Connects db db.drain := by
  unfold drain
  generalize db.remainingRuns = runs
  induction runs generalizing db with
  | zero => trivial
  | succ runs ih => exact ⟨fun _ impossible => (by cases impossible), ih _⟩

theorem drain_inTurn (db : Database) : Runs.Meets apply InTurn db db.drain := by
  unfold drain
  generalize db.remainingRuns = runs
  induction runs generalizing db with
  | zero => trivial
  | succ runs ih => exact ⟨trivial, ih _⟩

theorem Ordered.sentCalls {db : Database} (ordered : db.Ordered) :
    db.sentCalls.Pairwise (· < ·) :=
  (List.pairwise_append.mp (List.pairwise_append.mp ordered).1).1

/-- Commands are sent in the order of the calls in every run whose calls are made in turn,
and only in those once the strand has run its tasks. -/
theorem sent_in_call_order (conn : Bool) (events : List Event) :
    let queued := Runs.run apply (initial conn) events
    let drained := Runs.run apply queued queued.drain
    (Runs.Meets apply InTurn (initial conn) events → queued.sentCalls.Pairwise (· < ·)) ∧
    (Runs.Meets apply Connects (initial conn) events → drained.strand = [] ∧
      (drained.sentCalls.Pairwise (· < ·) ↔ Runs.Meets apply InTurn (initial conn) events)) := by
  intro queued drained
  have numbered := initial_numbered conn
  have ordered := initial_ordered conn
  refine ⟨fun inTurn => (run_ordered numbered ordered inTurn).2.sentCalls, fun connects => ?_⟩
  have empty : drained.strand = [] := drain_strand queued
  refine ⟨empty, ?_⟩
  have onlySent : drained.sendOrder = drained.sentCalls := by
    simp [sendOrder, waiting, empty]
  have split : drained = Runs.run apply (initial conn) (events ++ queued.drain) :=
    (Runs.run_append _ _ _).symm
  have whole := run_ordered_iff numbered ordered
    (Runs.meets_append.mpr ⟨connects, drain_connects queued⟩)
  rw [← split, Runs.meets_append, Ordered, onlySent] at whole
  exact whole.trans (and_iff_left (drain_inTurn queued))

theorem begin_then_execute_overtaken :
    let events := [.call .begin, .call (.execute .variadic "insert into t values (1)")]
    let queued := Runs.run apply (initial true) events
    let drained := Runs.run apply queued queued.drain
    drained.sent = [⟨1, "insert into t values (1)"⟩, ⟨0, "BEGIN"⟩] ∧
    drained.callbacks = [⟨1, none⟩, ⟨0, none⟩] ∧
    ¬ drained.sentCalls.Pairwise (· < ·) := by
  decide

def inTurnCalls : List Event :=
  [.call (.execute .variadic "select 1"), .call (.execute .parameters "select $1"), .call .begin]

theorem sent_in_call_order_inTurnCalls :
    let queued := Runs.run apply (initial false) inTurnCalls
    (Runs.run apply queued queued.drain).sentCalls.Pairwise (· < ·) :=
  ((sent_in_call_order false inTurnCalls).2 ⟨trivial, trivial, trivial, trivial⟩).2.mpr
    (by decide)

end Database

end PqAsync
