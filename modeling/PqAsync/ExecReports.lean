import PqAsync.ExecQueries

/-!
Which failures of its statements `exec_queries` reports, and when it takes a failed `COPY`
for a started one.
-/

namespace PqAsync

def Execution.Failed (round : Execution) : Prop :=
  round.asData = false ∧ (round.reply.status = .fatalError ∨ round.reply.status = .badResponse)

def Execution.Taken (round : Execution) : Prop :=
  round.asData = true ∧ round.reply.TookData

/-- A statement whose status is fine, or a `COPY` that waits for a data block and gets it
in the next round. -/
def Execution.Fine (round : Execution) (rest : List Execution) : Prop :=
  round.asData = false → round.reply.status.accepted = true ∨
    (isCopyStdin round.qry = true ∧ round.reply.status = .copyIn ∧
      ∃ next ∈ rest.head?, next.Taken)

def AllFine : List Execution → Prop
  | [] => True
  | round :: rest => round.Fine rest ∧ AllFine rest

/-- `exec_queries` returns only if all statements were executed and are fine, throws if one
failed, and enters copy mode only in the state `COPY_IN`. -/
structure ExecResult.Reports (result : ExecResult) (queries : List (List Char)) : Prop where
  returns : result.error = none →
    result.rounds.map Execution.qry = queries ∧ AllFine result.rounds
  throws : ∀ round ∈ result.rounds, round.Failed → result.error ≠ none
  enters : ∀ round ∈ result.rounds, round.entersCopy = true → round.reply.status = .copyIn

/-- No statement that passes the test for `COPY ... stdin` is answered by `BAD_RESPONSE`,
`NONFATAL_ERROR` or `FATAL_ERROR`, and none that is answered by `COPY_IN` is the last entry
of a list after which `exec_queries` returns. -/
def CopiesAnswered (returns : Prop) : List (List Char) → (Nat → Reply) → Bool → Prop
  | [], _, inCopyMode => inCopyMode = true → ¬ returns
  | _ :: queries, replies, true =>
      (replies 0).TookData →
        CopiesAnswered returns queries (fun i => replies (i + 1)) false
  | qry :: queries, replies, false =>
      (isCopyStdin qry = true → (replies 0).status ≠ .badResponse ∧
        (replies 0).status ≠ .nonfatalError ∧ (replies 0).status ≠ .fatalError) ∧
      (isCopyStdin qry = true ∧ (replies 0).status = .copyIn →
        CopiesAnswered returns queries (fun i => replies (i + 1)) true) ∧
      ((replies 0).status.accepted = true →
        CopiesAnswered returns queries (fun i => replies (i + 1)) false)

structure LoopReports (returns : Prop) (inCopyMode : Bool)
    (loop : List Execution × Option String) : Prop where
  fine : loop.2 = none → returns →
    (inCopyMode = true → ∃ round ∈ loop.1.head?, round.Taken) ∧ AllFine loop.1
  throws : ∀ round ∈ loop.1, round.Failed → loop.2 = none → ¬ returns
  enters : ∀ round ∈ loop.1, round.entersCopy = true → round.reply.status = .copyIn

theorem accepted_not_failed {status : ExecStatus} (accepted : status.accepted = true) :
    status ≠ .fatalError ∧ status ≠ .badResponse ∧ status ≠ .copyIn := by
  cases status <;> simp_all [ExecStatus.accepted]

theorem LoopReports.nil_iff (returns : Prop) (inCopyMode : Bool) :
    LoopReports returns inCopyMode ([], none) ↔ (inCopyMode = true → ¬ returns) := by
  constructor
  · rintro ⟨fine, _, _⟩ inCopy returned
    obtain ⟨_, impossible, _⟩ := (fine rfl returned).1 inCopy
    simp at impossible
  · intro ends
    refine ⟨?_, by simp, by simp⟩
    intro _ returned
    exact ⟨fun inCopy => absurd returned (ends inCopy), trivial⟩

theorem LoopReports.thrown {returns : Prop} {inCopyMode : Bool} {round : Execution}
    {message : String} (stays : round.entersCopy = false) :
    LoopReports returns inCopyMode ([round], some message) := by
  refine ⟨by simp, by simp, ?_⟩
  intro other member enters
  rw [List.mem_singleton.mp member, stays] at enters
  simp at enters

theorem LoopReports.later {returns : Prop} {inCopyMode next : Bool} {round : Execution}
    {loop : List Execution × Option String}
    (reports : LoopReports returns inCopyMode (round :: loop.1, loop.2))
    (fine : loop.2 = none → returns →
      (next = true → ∃ round ∈ loop.1.head?, round.Taken) ∧ AllFine loop.1) :
    LoopReports returns next loop := by
  refine ⟨fine, ?_, ?_⟩
  · intro other member
    exact reports.throws other (List.mem_cons_of_mem _ member)
  · intro other member
    exact reports.enters other (List.mem_cons_of_mem _ member)

theorem LoopReports.cons_statement_iff {returns : Prop} {round : Execution}
    {loop : List Execution × Option String} (stays : round.entersCopy = false) (accepted : round.reply.status.accepted = true) :
    LoopReports returns false (round :: loop.1, loop.2) ↔ LoopReports returns false loop := by
  have notFailed := accepted_not_failed accepted
  constructor
  · intro reports
    refine reports.later ?_
    intro ends returned
    exact ⟨by simp, (reports.fine ends returned).2.2⟩
  · rintro ⟨fine, throws, enters⟩
    refine ⟨fun ends returned => ⟨by simp, fun _ => Or.inl accepted, (fine ends returned).2⟩,
      List.forall_mem_cons.mpr ⟨?_, throws⟩, List.forall_mem_cons.mpr ⟨?_, enters⟩⟩
    · rintro ⟨_, fatal | bad⟩
      · exact absurd fatal notFailed.1
      · exact absurd bad notFailed.2.1
    · intro entered
      rw [stays] at entered
      simp at entered

theorem LoopReports.cons_copy_iff {returns : Prop} {round : Execution}
    {loop : List Execution × Option String} (statement : round.asData = false)
    (copying : isCopyStdin round.qry = true) (entered : round.entersCopy = true) :
    LoopReports returns false (round :: loop.1, loop.2) ↔
      round.reply.status = .copyIn ∧ LoopReports returns true loop := by
  constructor
  · intro reports
    have copyIn := reports.enters round List.mem_cons_self entered
    refine ⟨copyIn, reports.later ?_⟩
    intro ends returned
    obtain ⟨_, here, rest⟩ := reports.fine ends returned
    refine ⟨fun _ => ?_, rest⟩
    rcases here statement with accepted | ⟨_, _, next⟩
    · exact absurd copyIn (accepted_not_failed accepted).2.2
    · exact next
  · rintro ⟨copyIn, fine, throws, enters⟩
    refine ⟨fun ends returned => ⟨by simp, fun _ => ?_, (fine ends returned).2⟩,
      List.forall_mem_cons.mpr ⟨?_, throws⟩, List.forall_mem_cons.mpr ⟨fun _ => copyIn, enters⟩⟩
    · exact Or.inr ⟨copying, copyIn, (fine ends returned).1 rfl⟩
    · rintro ⟨_, fatal | bad⟩
      · rw [copyIn] at fatal
        simp at fatal
      · rw [copyIn] at bad
        simp at bad

theorem LoopReports.cons_data_iff {returns : Prop} {round : Execution}
    {loop : List Execution × Option String} (taken : round.Taken)
    (stays : round.entersCopy = false) :
    LoopReports returns true (round :: loop.1, loop.2) ↔ LoopReports returns false loop := by
  constructor
  · intro reports
    refine reports.later ?_
    intro ends returned
    exact ⟨by simp, (reports.fine ends returned).2.2⟩
  · rintro ⟨fine, throws, enters⟩
    refine ⟨fun ends returned => ⟨fun _ => ⟨round, rfl, taken⟩, ?_, (fine ends returned).2⟩,
      List.forall_mem_cons.mpr ⟨?_, throws⟩, List.forall_mem_cons.mpr ⟨?_, enters⟩⟩
    · intro statement
      rw [taken.1] at statement
      simp at statement
    · rintro ⟨statement, _⟩
      rw [taken.1] at statement
      simp at statement
    · intro entered
      rw [stays] at entered
      simp at entered

theorem execLoop_reports_iff (returns : Prop) (queries : List (List Char))
    (replies : Nat → Reply) (inCopyMode : Bool) :
    LoopReports returns inCopyMode (execLoop queries replies inCopyMode) ↔
      CopiesAnswered returns queries replies inCopyMode := by
  induction queries generalizing replies inCopyMode with
  | nil => exact LoopReports.nil_iff returns inCopyMode
  | cons qry queries ih =>
      rw [execLoop_cons]
      cases inCopyMode with
      | true =>
          obtain ⟨round, goesOn⟩ := execQuery_data qry (replies 0)
          rw [round, CopiesAnswered]
          cases thrown : (execQuery true qry (replies 0)).2 with
          | some message =>
              refine iff_of_true (LoopReports.thrown rfl) ?_
              intro took
              rw [goesOn.mpr took] at thrown
              simp at thrown
          | none =>
              have took := goesOn.mp thrown
              have taken : (⟨qry, true, replies 0, false⟩ : Execution).Taken := ⟨rfl, took⟩
              rw [LoopReports.cons_data_iff taken rfl, ih]
              simp [took]
      | false =>
          obtain ⟨round, goesOn⟩ := execQuery_statement qry (replies 0)
          rw [round, CopiesAnswered]
          cases enters : entersCopyMode qry (replies 0).status with
          | true =>
              obtain ⟨copying, statuses⟩ := (entersCopyMode_iff _ _).mp enters
              rw [goesOn.mpr (Or.inl enters)]
              dsimp only
              rw [LoopReports.cons_copy_iff (by rfl) copying rfl, ih]
              rcases statuses with copyIn | bad | nonfatal | fatal
              · simp [copyIn, copying, ExecStatus.accepted]
              · simp [bad, copying]
              · simp [nonfatal, copying]
              · simp [fatal, copying]
          | false =>
              have outside : isCopyStdin qry = true → (replies 0).status ≠ .copyIn ∧
                  (replies 0).status ≠ .badResponse ∧ (replies 0).status ≠ .nonfatalError ∧
                  (replies 0).status ≠ .fatalError := by
                intro copying
                have no : ¬ entersCopyMode qry (replies 0).status = true := by simp [enters]
                rw [entersCopyMode_iff, not_and] at no
                simpa only [not_or] using no copying
              cases thrown : (execQuery false qry (replies 0)).2 with
              | some message =>
                  have refused : ¬ (replies 0).status.accepted = true := by
                    intro accepted
                    rw [goesOn.mpr (Or.inr accepted)] at thrown
                    simp at thrown
                  refine iff_of_true (LoopReports.thrown rfl) ⟨?_, ?_, ?_⟩
                  · exact fun copying => (outside copying).2
                  · exact fun both => absurd both.2 (outside both.1).1
                  · exact fun accepted => absurd accepted refused
              | none =>
                  have accepted : (replies 0).status.accepted = true := by
                    rcases goesOn.mp thrown with entered | accepted
                    · rw [enters] at entered
                      simp at entered
                    · exact accepted
                  dsimp only
                  rw [LoopReports.cons_statement_iff (by rfl) accepted, ih]
                  constructor
                  · intro later
                    refine ⟨fun copying => (outside copying).2, ?_, fun _ => later⟩
                    exact fun both => absurd both.2 (outside both.1).1
                  · exact fun answered => answered.2.2 accepted

theorem execLoop_qry (queries : List (List Char)) (replies : Nat → Reply) (inCopyMode : Bool)
    (ends : (execLoop queries replies inCopyMode).2 = none) :
    (execLoop queries replies inCopyMode).1.map Execution.qry = queries := by
  induction queries generalizing replies inCopyMode with
  | nil => rfl
  | cons qry queries ih =>
      have named : (execQuery inCopyMode qry (replies 0)).1.qry = qry := by
        cases inCopyMode with
        | true => rw [(execQuery_data qry (replies 0)).1]
        | false => rw [(execQuery_statement qry (replies 0)).1]
      rw [execLoop_cons] at ends ⊢
      cases thrown : (execQuery inCopyMode qry (replies 0)).2 with
      | some message => simp [thrown] at ends
      | none =>
          simp only [thrown] at ends ⊢
          rw [List.map_cons, named, ih _ _ ends]

namespace Database

theorem reports_iff {db : Database} {answers : ExecAnswers} {sql : List Char}
    {result : ExecResult} (ran : db.execQueries answers sql = some result)
    (begins : db.Begins answers) :
    result.Reports (splitQueries sql) ↔
      CopiesAnswered (db.Returns answers) (splitQueries sql) answers.replies false := by
  obtain ⟨rounds, error⟩ := error_none_iff ran begins
  rw [← execLoop_reports_iff]
  constructor
  · rintro ⟨returns, throws, enters⟩
    rw [rounds] at returns throws enters
    refine ⟨fun ends returned => ⟨by simp, ?_⟩, ?_, enters⟩
    · exact (returns (error.mpr ⟨ends, returned⟩)).2
    · intro round member failed ends returned
      exact throws round member failed (error.mpr ⟨ends, returned⟩)
  · rintro ⟨fine, throws, enters⟩
    refine ⟨?_, ?_, by rw [rounds]; exact enters⟩
    · intro returned
      obtain ⟨ends, after⟩ := error.mp returned
      rw [rounds]
      exact ⟨execLoop_qry _ _ _ ends, (fine ends after).2⟩
    · intro round member failed returned
      obtain ⟨ends, after⟩ := error.mp returned
      rw [rounds] at member
      exact throws round member failed ends after

/-- `exec_queries` reports its failed statements exactly when it never takes an error of a
`COPY` for `COPY_IN`, and has a data block for each `COPY` that starts. -/
theorem execQueries_reports_iff (db : Database) (answers : ExecAnswers) (sql : List Char) :
    (∀ result, db.execQueries answers sql = some result → result.Reports (splitQueries sql)) ↔
      (db.conn = true → db.Begins answers →
        CopiesAnswered (db.Returns answers) (splitQueries sql) answers.replies false) := by
  constructor
  · intro all conn begins
    obtain ⟨result, ran⟩ := execQueries_isSome conn answers sql
    exact (reports_iff ran begins).mp (all result ran)
  · intro condition result ran
    by_cases begins : db.Begins answers
    · exact (reports_iff ran begins).mpr (condition (execQueries_cases ran).1 begins)
    · obtain ⟨_, ⟨_, thrown, _, rounds, error⟩ | ⟨begun, _⟩⟩ := execQueries_cases ran
      · refine ⟨?_, ?_, ?_⟩
        · intro returned
          rw [← error, returned] at thrown
          simp at thrown
        · simp [rounds]
        · simp [rounds]
      · exact absurd begun begins

end Database

/-- A script that ends in a `COPY` to a table that is not there: the server refuses it, and
`exec_queries` commits and returns. -/
theorem execQueries_failed_copy :
    let db := Database.initial true
    let missing : Reply := { status := .fatalError, putCopyData := false, putCopyEnd := false,
                             errorMessage := "relation \"t\" does not exist" }
    let answers : ExecAnswers := { begin := working, replies := fun _ => missing, commit := none }
    (db.execQueries answers "copy t from stdin;".toList).map (fun result =>
        (result.error, result.rounds.map Execution.entersCopy)) = some (none, [true]) ∧
    ¬ ∀ result, db.execQueries answers "copy t from stdin;".toList = some result →
      result.Reports (splitQueries "copy t from stdin;".toList) := by
  refine ⟨by decide, ?_⟩
  intro all
  have reports := all _ rfl
  have impossible := reports.enters _ List.mem_cons_self (by decide)
  revert impossible
  decide

end PqAsync
