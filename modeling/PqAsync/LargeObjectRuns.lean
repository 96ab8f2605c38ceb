import PqAsync.LargeObjectCore
import PqAsync.SyncCalls

/-!
Large objects over whole runs: an opened object is in the transaction that its `open` has begun,
on a connection that no other database has, and its descriptor is used there only.
-/

namespace PqAsync

namespace Pool

section

variable {pool : Pool} {db : Nat} {now : Int} {dial : Dial} {reply : Bool}

theorem Exclusive.modify (exclusive : pool.Exclusive) (conn : Nat)
    {change : Connection → Connection}
    (keeps : (change (pool.mem conn)).owner = (pool.mem conn).owner) :
    (pool.modify conn change).Exclusive where
  owned := (modify_sameLinks pool conn change keeps).owned exclusive.owned
  counted := ⟨exclusive.counted.unused, exclusive.counted.uses⟩
  known := exclusive.known.sameLinks (modify_sameLinks pool conn change keeps)
    exclusive.known.locked
  unshared := exclusive.unshared

theorem beginSync_returned (returned : (pool.beginSync db now dial reply).2 = .returned) :
    ∃ conn, (pool.apply (.begin db now dial reply)).InTransaction db conn := by
  rw [apply, ← beginSync_pool]
  unfold beginSync at returned ⊢
  generalize pool.openConnection db now dial = result at returned ⊢
  obtain ⟨next, lock⟩ := result
  cases lock with
  | none => cases returned
  | some lock =>
      dsimp only at returned ⊢
      generalize next.setLock db (some lock) now = locked at returned ⊢
      unfold onConn at returned ⊢
      cases held : (locked.dbs db).conn with
      | none =>
          rw [held] at returned
          cases returned
      | some conn =>
          simp only [held] at returned ⊢
          refine ⟨conn, held, ?_⟩
          revert returned
          simp only [modify, Function.update_self, Connection.beginTransaction]
          split
          · simp
          · split
            · cases reply <;> simp
            · simp

theorem InTransaction.not_begins {conn : Nat} (inside : pool.InTransaction db conn)
    (unbroken : dial.broken = false) : (pool.beginSync db now dial reply).2 ≠ .returned := by
  have opened := (@InTransaction.opening _ _ _ inside now _ unbroken).1
  unfold beginSync
  generalize pool.openConnection db now dial = result at opened ⊢
  obtain ⟨next, lock⟩ := result
  cases lock with
  | none => simp
  | some lock =>
      have stored := opened.setLock (some lock) now
      simp [onConn, stored.held, Connection.beginTransaction, stored.inside]

theorem InTransaction.ends {conn : Nat} (inside : pool.InTransaction db conn) :
    (pool.endTransactionSync db now true).2 = .returned ∧
      let next := pool.apply (.endTransaction db now true)
      (next.mem conn).isInTransaction = false ∧ (next.dbs db).lock = none := by
  have accepted : ((pool.mem conn).endTransaction now true).2 = true := by
    simp [Connection.endTransaction, Connection.touch, inside.inside]
  have ended : pool.apply (.endTransaction db now true) =
      (pool.modify conn fun conn => (conn.endTransaction now true).1).setLock db none now := by
    simp only [Pool.apply, Pool.endTransaction, inside.held, accepted, if_true]
  refine ⟨by simp [endTransactionSync, onConn, inside.held, accepted], ?_⟩
  rw [ended]
  constructor
  · rw [(setLock_sameSession _ db none now conn).isInTransaction]
    simp [Pool.modify, Connection.endTransaction, Connection.touch, inside.inside]
  · unfold Pool.setLock
    dsimp only
    split
    · rw [dropLock_dbs]
      simp
    · simp

end

end Pool

/-- `lo_open` has returned a descriptor for an object, and no descriptor has been closed there
since. -/
def IsOpen (calls : List (Session × LargeObjectCall)) (session : Session) (oid : Nat)
    (fd : Int) : Prop :=
  ∃ before mode after, calls = before ++ (session, .open oid mode fd) :: after ∧
    ∀ other, (session, LargeObjectCall.close other) ∉ after

theorem IsOpen.append {calls : List (Session × LargeObjectCall)} {session : Session}
    {oid : Nat} {fd : Int} (isOpen : IsOpen calls session oid fd)
    {call : Session × LargeObjectCall} (keeps : ∀ other, call ≠ (session, .close other)) :
    IsOpen (calls ++ [call]) session oid fd := by
  obtain ⟨before, mode, after, rfl, kept⟩ := isOpen
  refine ⟨before, mode, after ++ [call], by simp, fun other listed => ?_⟩
  rcases List.mem_append.mp listed with earlier | last
  · exact kept other earlier
  · exact keeps other (List.mem_singleton.mp last).symm

theorem isOpen_open (calls : List (Session × LargeObjectCall)) (session : Session)
    (oid : Nat) (mode : BitVec 32) (fd : Int) :
    IsOpen (calls ++ [(session, .open oid mode fd)]) session oid fd :=
  ⟨calls, mode, [], rfl, fun _ listed => by cases listed⟩

namespace LargeObjects

def resumed (frame : LargeObjectFrame) (object : DataLargeObject)
    (answers : LargeObjectAnswers) : Option PoolEvent :=
  match frame.stage with
  | .opening _ => some (.begin object.db answers.now answers.dial answers.reply)
  | .undoing => some (.endTransaction object.db answers.now answers.reply)
  | .closing _ => some (.endTransaction object.db answers.now answers.reply)

def pooled (this : LargeObjects) : LargeObjectEvent → Option PoolEvent
  | .pool event => some event
  | .createLo db now dial _ => some (.openConnection db now dial)
  | .openObject index _ now dial =>
      (this.objects[index]?).bind fun object =>
        if object.opened then none else some (.openConnection object.db now dial)
  | .unlink index now dial =>
      (this.objects[index]?).bind fun object =>
        if object.opened then none else some (.openConnection object.db now dial)
  | .resume answers =>
      this.frames.head?.bind fun frame =>
        (this.objects[frame.index]?).bind fun object => resumed frame object answers
  | _ => none

/-- Nobody is handed a connection to which another database points. -/
def Free (this : LargeObjects) (event : LargeObjectEvent) : Prop :=
  ∀ pooled ∈ this.pooled event, this.pool.HandsOutFree pooled

/-- A database stays in its transaction while an object of it is opened, and its `PGconn` works. -/
def QuietFor (this : LargeObjects) (event : PoolEvent) : Prop :=
  ∀ object ∈ this.objects, object.opened = true → event.Quiet object.db

def Quiet (this : LargeObjects) (event : LargeObjectEvent) : Prop :=
  ∀ pooled ∈ this.pooled event, this.QuietFor pooled

structure Careful (this : LargeObjects) (event : LargeObjectEvent) : Prop where
  free : this.Free event
  quiet : this.Quiet event

structure Sound (this : LargeObjects) : Prop where
  exclusive : this.pool.Exclusive
  backed : ∀ object ∈ this.objects, object.opened = true →
    ∃ conn, this.pool.InTransaction object.db conn ∧
      IsOpen this.calls (this.session conn) object.oid object.fd
  alone : ∀ (i j : Nat) (left right : DataLargeObject), this.objects[i]? = some left →
    this.objects[j]? = some right → left.opened = true → right.opened = true →
    left.db = right.db → i = j

structure SameTransactions (pool next : Pool) : Prop where
  exclusive : pool.Exclusive → next.Exclusive
  dbs : next.dbs = pool.dbs
  inside : ∀ conn, (next.mem conn).isInTransaction = (pool.mem conn).isInTransaction

theorem SameTransactions.refl (pool : Pool) : SameTransactions pool pool := ⟨id, rfl, fun _ => rfl⟩

theorem SameTransactions.inTransaction {pool next : Pool} (same : SameTransactions pool next)
    {db conn : Nat} (inside : pool.InTransaction db conn) : next.InTransaction db conn :=
  ⟨by rw [same.dbs]; exact inside.held, (same.inside conn).trans inside.inside⟩

theorem initial_sound (maxConn : Nat) : (initial maxConn).Sound where
  exclusive := Pool.initial_exclusive maxConn
  backed _ listed := by cases listed
  alone i _ _ _ found := by cases found

section

variable {this : LargeObjects}

theorem modifyConn_same (conn : Option Nat) {change : Connection → Connection}
    (keeps : ∀ conn, (change conn).owner = conn.owner ∧
      (change conn).isInTransaction = conn.isInTransaction) :
    SameTransactions this.pool (this.modifyConn conn change).pool := by
  cases conn with
  | none => exact .refl this.pool
  | some conn =>
      refine ⟨fun exclusive => exclusive.modify conn (keeps _).1, rfl, fun other => ?_⟩
      by_cases same : other = conn
      · subst other
        simp [modifyConn, Pool.modify, keeps]
      · simp [modifyConn, Pool.modify, same]

theorem startWork_same (conn : Option Nat) (now : Int) :
    SameTransactions this.pool (this.modifyConn conn (·.startWork now)).pool :=
  modifyConn_same conn fun conn =>
    ⟨Connection.startWork_owner conn now, (Pool.startWork_session conn now).1⟩

theorem stopWork_same (conn : Option Nat) (now : Int) :
    SameTransactions this.pool (this.modifyConn conn (·.stopWork now)).pool :=
  modifyConn_same conn fun _ => ⟨rfl, rfl⟩

@[simp] theorem modifyConn_transaction (conn : Option Nat) (change : Connection → Connection) :
    (this.modifyConn conn change).transaction = this.transaction := by
  cases conn <;> rfl

@[simp] theorem modifyConn_calls (conn : Option Nat) (change : Connection → Connection) :
    (this.modifyConn conn change).calls = this.calls := by
  cases conn <;> rfl

@[simp] theorem modifyConn_objects (conn : Option Nat) (change : Connection → Connection) :
    (this.modifyConn conn change).objects = this.objects := by
  cases conn <;> rfl

namespace Sound

theorem of_same {next : LargeObjects} (sound : this.Sound)
    (same : SameTransactions this.pool next.pool) (transaction : next.transaction = this.transaction)
    (calls : next.calls = this.calls) (objects : next.objects = this.objects) : next.Sound where
  exclusive := same.exclusive sound.exclusive
  backed object listed opened := by
    rw [objects] at listed
    obtain ⟨conn, inside, isOpen⟩ := sound.backed object listed opened
    refine ⟨conn, same.inTransaction inside, ?_⟩
    rw [calls, session, transaction]
    exact isOpen
  alone := by
    rw [objects]
    exact sound.alone

theorem finish (sound : this.Sound) (ending : LargeObjectEnding) : (this.finish ending).Sound :=
  sound.of_same (.refl _) rfl rfl rfl

theorem push (sound : this.Sound) (frame : LargeObjectFrame) : (this.push frame).Sound :=
  sound.of_same (.refl _) rfl rfl rfl

theorem leave (sound : this.Sound) (conn : Option Nat) (now : Int)
    (ending : LargeObjectEnding) : (this.leave conn now ending).Sound :=
  (sound.of_same (stopWork_same conn now) (modifyConn_transaction _ _) (modifyConn_calls _ _)
    (modifyConn_objects _ _)).finish ending

theorem record (sound : this.Sound) (conn : Nat) {call : LargeObjectCall}
    (keeps : ∀ fd, call ≠ .close fd) : (this.record conn call).Sound where
  exclusive := sound.exclusive
  backed object listed opened := by
    obtain ⟨taken, inside, isOpen⟩ := sound.backed object listed opened
    exact ⟨taken, inside, isOpen.append fun other same => keeps other (congrArg Prod.snd same)⟩
  alone := sound.alone

theorem applyPool (sound : this.Sound) {event : PoolEvent}
    (free : this.pool.HandsOutFree event) (quiet : this.QuietFor event) :
    (this.applyPool event).Sound where
  exclusive := sound.exclusive.apply free
  backed object listed opened := by
    obtain ⟨conn, inside, isOpen⟩ := sound.backed object listed opened
    have quiet := quiet object listed opened
    have next := inside.apply sound.exclusive free quiet
    have survives := survives_inside (sound.exclusive.apply free) next quiet
    refine ⟨conn, next, ?_⟩
    have same : (this.applyPool event).session conn = this.session conn :=
      congrArg (Session.mk conn) (if_pos survives)
    rw [same]
    exact isOpen
  alone := sound.alone

theorem closed {objects : List DataLargeObject} (sound : this.Sound)
    (known : ∀ (i : Nat) object, objects[i]? = some object → object.opened = true →
      this.objects[i]? = some object) : { this with objects }.Sound where
  exclusive := sound.exclusive
  backed object listed opened := by
    obtain ⟨i, found⟩ := List.mem_iff_getElem?.mp listed
    exact sound.backed object (List.mem_of_getElem? (known i object found opened)) opened
  alone i j left right first second leftOpened rightOpened same :=
    sound.alone i j left right (known i left first leftOpened) (known j right second rightOpened)
      leftOpened rightOpened same

theorem addObject (sound : this.Sound) {object : DataLargeObject}
    (closed : object.opened = false) :
    { this with objects := this.objects ++ [object] }.Sound := by
  refine sound.closed fun i other found opened => ?_
  rw [List.getElem?_append] at found
  split at found
  · exact found
  · obtain rfl : object = other := by
      have listed := List.mem_of_getElem? found
      exact (List.mem_singleton.mp listed).symm
    rw [closed] at opened
    cases opened

theorem setClosed (sound : this.Sound) (index : Nat) {object : DataLargeObject}
    (closed : object.opened = false) : (this.setObject index object).Sound := by
  refine sound.closed fun i other found opened => ?_
  by_cases same : i = index
  · subst i
    obtain ⟨_, rfl⟩ : _ ∧ object = other := by simpa [List.getElem?_set] using found
    rw [closed] at opened
    cases opened
  · rwa [List.getElem?_set_ne (Ne.symm same)] at found

theorem replace (sound : this.Sound) {conn index : Nat} {call : LargeObjectCall}
    {objects : List DataLargeObject} (within : (this.pool.mem conn).isInTransaction = true)
    (known : ∀ (i : Nat) object, objects[i]? = some object → object.opened = true →
      (this.objects[i]? = some object ∧ (this.pool.dbs object.db).conn ≠ some conn) ∨
        (i = index ∧ (this.pool.dbs object.db).conn = some conn ∧
          IsOpen (this.record conn call).calls (this.session conn) object.oid object.fd)) :
    { this.record conn call with objects }.Sound where
  exclusive := sound.exclusive
  backed object listed opened := by
    obtain ⟨i, found⟩ := List.mem_iff_getElem?.mp listed
    obtain ⟨before, elsewhere⟩ | ⟨_, held, isOpen⟩ := known i object found opened
    · obtain ⟨taken, inside, isOpen⟩ := sound.backed object (List.mem_of_getElem? before) opened
      refine ⟨taken, inside, isOpen.append fun other same => elsewhere ?_⟩
      obtain rfl : conn = taken := congrArg (fun call => call.1.conn) same
      exact inside.held
    · exact ⟨conn, ⟨held, within⟩, isOpen⟩
  alone i j left right first second leftOpened rightOpened same := by
    obtain ⟨before, elsewhere⟩ | ⟨rfl, held, _⟩ := known i left first leftOpened
    · obtain ⟨also, _⟩ | ⟨_, held, _⟩ := known j right second rightOpened
      · exact sound.alone i j left right before also leftOpened rightOpened same
      · rw [← same] at held
        exact absurd held elsewhere
    · obtain ⟨_, elsewhere⟩ | ⟨rfl, _, _⟩ := known j right second rightOpened
      · rw [same] at held
        exact absurd held elsewhere
      · rfl

theorem openConnection (sound : this.Sound) {db : Nat} {now : Int} {dial : Dial}
    (free : this.pool.HandsOutFree (.openConnection db now dial))
    (quiet : this.QuietFor (.openConnection db now dial)) :
    (this.openConnection db now dial).1.Sound := by
  have opened := sound.applyPool free quiet
  unfold LargeObjects.openConnection
  dsimp only
  split
  · exact opened
  · refine opened.applyPool (Pool.handsOutFree_dropHeld _ now) fun object _ _ acts => ?_
    cases acts

theorem locking (sound : this.Sound) {db : Nat} {now : Int}
    {call : LargeObjects → Option Nat → LargeObjects}
    (calls : ∀ next : LargeObjects, next.Sound → next.objects = this.objects →
      (call next (next.pool.dbs db).conn).Sound) : (this.locking db now call).Sound := by
  unfold LargeObjects.locking
  dsimp only
  split
  · exact sound.finish _
  · have same := @startWork_same this (this.pool.dbs db).conn now
    have next := sound.of_same same (modifyConn_transaction _ _) (modifyConn_calls _ _)
      (modifyConn_objects _ _)
    have called := calls _ next (modifyConn_objects _ _)
    rwa [same.dbs] at called

theorem createLo (sound : this.Sound) {db : Nat} {now : Int} {dial : Dial} (oid : Nat)
    (free : this.pool.HandsOutFree (.openConnection db now dial))
    (quiet : this.QuietFor (.openConnection db now dial)) :
    (this.createLo db now dial oid).Sound := by
  have opened := sound.openConnection free quiet
  unfold LargeObjects.createLo
  generalize this.openConnection db now dial = result at opened ⊢
  obtain ⟨next, ok⟩ := result
  cases ok with
  | false => exact opened.finish _
  | true =>
      refine opened.locking fun next sound _ => ?_
      split
      · exact sound.finish _
      · rename_i taken _
        exact ((sound.record taken fun _ same => by cases same).addObject rfl).leave _ now _

theorem openObject (sound : this.Sound) {index : Nat} {mode : BitVec 32} {now : Int} {dial : Dial}
    (free : this.Free (.openObject index mode now dial))
    (quiet : this.Quiet (.openObject index mode now dial)) :
    (this.openObject index mode now dial).Sound := by
  unfold LargeObjects.openObject
  cases found : this.objects[index]? with
  | none => exact sound
  | some object =>
      dsimp only
      split
      · exact sound.finish _
      · rename_i closed
        have asks : this.pooled (.openObject index mode now dial) =
            some (.openConnection object.db now dial) := by
          simp [pooled, found, closed]
        have opened := sound.openConnection (free _ asks) (quiet _ asks)
        generalize this.openConnection object.db now dial = result at opened ⊢
        obtain ⟨next, ok⟩ := result
        cases ok with
        | false => exact opened.finish _
        | true => exact opened.locking fun next sound _ => sound.push _

theorem unlink (sound : this.Sound) {index : Nat} {now : Int} {dial : Dial}
    (free : this.Free (.unlink index now dial)) (quiet : this.Quiet (.unlink index now dial)) :
    (this.unlink index now dial).Sound := by
  unfold LargeObjects.unlink
  cases found : this.objects[index]? with
  | none => exact sound
  | some object =>
      dsimp only
      split
      · exact sound.finish _
      · rename_i closed
        have asks : this.pooled (.unlink index now dial) =
            some (.openConnection object.db now dial) := by
          simp [pooled, found, closed]
        have opened := sound.openConnection (free _ asks) (quiet _ asks)
        generalize this.openConnection object.db now dial = result at opened ⊢
        obtain ⟨next, ok⟩ := result
        cases ok with
        | false => exact opened.finish _
        | true =>
            refine opened.locking fun next sound _ => ?_
            split
            · exact sound.finish _
            · rename_i taken _
              exact (sound.record taken fun _ same => by cases same).leave _ now _

theorem use (sound : this.Sound) (verb : LargeObjectUse) (index : Nat) (now : Int)
    (accepted : Bool) : (this.use verb index now accepted).Sound := by
  unfold LargeObjects.use
  split
  · exact sound
  · split
    · refine sound.locking fun next sound _ => ?_
      split
      · exact sound.finish _
      · rename_i taken _
        exact (sound.record taken fun _ same => by cases same).leave _ now _
    · exact sound.finish _

theorem unique (sound : this.Sound) {i j conn : Nat} {left right : DataLargeObject}
    (first : this.objects[i]? = some left) (second : this.objects[j]? = some right)
    (leftOpened : left.opened = true) (rightOpened : right.opened = true)
    (held : (this.pool.dbs left.db).conn = some conn)
    (also : (this.pool.dbs right.db).conn = some conn) : i = j :=
  sound.alone i j left right first second leftOpened rightOpened
    (sound.exclusive.unshared left.db right.db conn held also)

theorem close (sound : this.Sound) (index : Nat) (now : Int) (accepted : Bool) :
    (this.close index now accepted).Sound := by
  unfold LargeObjects.close
  split
  · exact sound
  rename_i object found
  split
  · rename_i opened
    refine sound.locking fun next sound objects => ?_
    rw [← objects] at found
    split
    · exact sound.finish _
    · rename_i taken held
      obtain ⟨conn, inside, _⟩ := sound.backed object (List.mem_of_getElem? found) opened
      have same : conn = taken := Option.some.inj (inside.held.symm.trans held)
      subst conn
      refine Sound.push ?_ _
      refine @replace next sound taken index _ _ inside.inside fun i other at_ isOpened => ?_
      by_cases same : i = index
      · subst i
        obtain ⟨_, rfl⟩ : _ ∧ _ = other := by simpa [List.getElem?_set] using at_
        cases isOpened
      · have before : next.objects[i]? = some other := by
          simpa [LargeObjects.record, List.getElem?_set, Ne.symm same] using at_
        refine Or.inl ⟨before, fun also => same ?_⟩
        exact sound.unique before found isOpened opened also held
  · exact sound.finish _

theorem opened (sound : this.Sound) {frame : LargeObjectFrame} {object : DataLargeObject}
    {mode : BitVec 32} {answers : LargeObjectAnswers} {conn : Nat}
    (found : this.objects[frame.index]? = some object)
    (inside : this.pool.InTransaction object.db conn)
    (free : ∀ other ∈ this.objects, other.opened = true → other.db ≠ object.db) :
    (this.opened frame object mode answers).Sound := by
  have recorded : (this.record conn (.open object.oid mode answers.fd)).Sound :=
    sound.record conn fun _ same => by cases same
  unfold LargeObjects.opened
  rw [inside.held]
  dsimp only
  split
  · refine (recorded.setClosed frame.index ?_).push _
    cases closed : object.opened with
    | false => exact closed
    | true => exact absurd rfl (free object (List.mem_of_getElem? found) closed)
  · refine Sound.leave ?_ _ _ _
    refine @replace this sound conn frame.index _ _ inside.inside fun i other at_ isOpened => ?_
    by_cases same : i = frame.index
    · subst i
      obtain ⟨_, rfl⟩ : _ ∧ _ = other := by simpa [List.getElem?_set] using at_
      exact Or.inr ⟨rfl, inside.held, isOpen_open _ _ _ _ _⟩
    · have before : this.objects[i]? = some other := by
        simpa [LargeObjects.record, List.getElem?_set, Ne.symm same] using at_
      refine Or.inl ⟨before, fun also => free other (List.mem_of_getElem? before) isOpened ?_⟩
      exact sound.exclusive.unshared other.db object.db conn also inside.held

theorem endTransaction (sound : this.Sound) {frame : LargeObjectFrame} {object : DataLargeObject}
    {answers : LargeObjectAnswers} (ending : LargeObjectEnding)
    (free : this.pool.HandsOutFree (.endTransaction object.db answers.now answers.reply))
    (quiet : this.QuietFor (.endTransaction object.db answers.now answers.reply)) :
    (this.endTransaction frame object answers ending).Sound := by
  have ended := sound.applyPool free quiet
  unfold LargeObjects.endTransaction
  dsimp only
  split
  · exact ended.leave _ _ _
  · exact ended.leave _ _ _
  · exact ended.finish _

theorem proceed (sound : this.Sound) {frame : LargeObjectFrame} {object : DataLargeObject}
    {answers : LargeObjectAnswers}
    (found : this.objects[frame.index]? = some object)
    (free : ∀ event ∈ resumed frame object answers, this.pool.HandsOutFree event)
    (quiet : ∀ event ∈ resumed frame object answers, this.QuietFor event) :
    (this.proceed frame object answers).Sound := by
  unfold LargeObjects.proceed
  unfold resumed at free quiet
  cases stage : frame.stage with
  | opening mode =>
      rw [stage] at free quiet
      have quiet := quiet _ rfl
      have begun := sound.applyPool (free _ rfl) quiet
      dsimp only
      split
      · rename_i returned
        obtain ⟨conn, inside⟩ := Pool.beginSync_returned returned
        refine begun.opened found inside fun other listed isOpened same => ?_
        obtain ⟨taken, within, _⟩ := sound.backed other listed isOpened
        rw [same] at within
        refine within.not_begins ((quiet other listed isOpened ?_).2 _ rfl) returned
        rw [same]
        rfl
      · exact begun.leave _ _ _
      · exact begun.finish _
  | undoing =>
      rw [stage] at free quiet
      exact sound.endTransaction _ (free _ rfl) (quiet _ rfl)
  | closing failed =>
      rw [stage] at free quiet
      exact sound.endTransaction _ (free _ rfl) (quiet _ rfl)

theorem resume (sound : this.Sound) {answers : LargeObjectAnswers}
    (free : this.Free (.resume answers)) (quiet : this.Quiet (.resume answers)) :
    (this.resume answers).Sound := by
  unfold LargeObjects.resume
  split
  · exact sound
  · rename_i frame frames waits
    split
    · exact sound
    · rename_i object found
      have popped : { this with frames }.Sound := sound.of_same (.refl _) rfl rfl rfl
      have asks : this.pooled (.resume answers) = resumed frame object answers := by
        simp [pooled, waits, found]
      unfold Free at free
      unfold Quiet at quiet
      rw [asks] at free quiet
      exact popped.proceed found free quiet

theorem step (sound : this.Sound) {event : LargeObjectEvent} (free : this.Free event)
    (quiet : this.Quiet event) : (this.step event).Sound := by
  unfold LargeObjects.step
  split
  · exact sound
  cases event with
  | pool event => exact sound.applyPool (free event rfl) (quiet event rfl)
  | createLo db now dial oid => exact sound.createLo oid (free _ rfl) (quiet _ rfl)
  | getLo db oid => exact sound.addObject rfl
  | openObject index mode now dial => exact sound.openObject free quiet
  | use verb index now accepted => exact sound.use verb index now accepted
  | close index now accepted => exact sound.close index now accepted
  | unlink index now dial => exact sound.unlink free quiet
  | resume answers => exact sound.resume free quiet

end Sound

end

theorem run_sound {this : LargeObjects} (sound : this.Sound) {events : List LargeObjectEvent}
    (careful : Runs.Meets step Careful this events) : (Runs.run step this events).Sound :=
  careful.invariant Sound (fun _ _ sound careful => sound.step careful.free careful.quiet) sound

/-- While no connection is shared, and no database ends its transaction while an object of it is
opened, an opened object is the only one of its database, in the transaction in which `lo_open`
returned its descriptor, on a connection that nobody else has; and a call on it uses that descriptor
there, or throws because the connection is locked. -/
theorem opened_object_used {maxConn : Nat} {events : List LargeObjectEvent}
    (careful : Runs.Meets step Careful (initial maxConn) events) :
    let this := Runs.run step (initial maxConn) events
    ∀ (index : Nat) (object : DataLargeObject),
      this.objects[index]? = some object → object.opened = true →
      (∀ (other : Nat) (another : DataLargeObject), this.objects[other]? = some another →
        another.opened = true → another.db = object.db → other = index) ∧
      ∃ conn, this.pool.InTransaction object.db conn ∧
        (∀ db, (this.pool.dbs db).conn = some conn → db = object.db) ∧
        IsOpen this.calls (this.session conn) object.oid object.fd ∧
        ∀ verb now accepted,
          let next := this.use verb index now accepted
          if (this.pool.mem conn).running = 1 then
            next.calls = this.calls ∧ next.endings = this.endings ++ [.threw alreadyLocked]
          else
            next.calls = this.calls ++ [(this.session conn, .use verb object.fd)] ∧
              next.endings = this.endings ++ [if accepted then .returned else .threw .libpq] := by
  intro this index object found opened
  have sound : this.Sound := run_sound (initial_sound maxConn) careful
  clear_value this
  obtain ⟨conn, inside, isOpen⟩ := sound.backed object (List.mem_of_getElem? found) opened
  refine ⟨fun other another also isOpened same =>
    sound.alone other index another object also found isOpened opened same, conn, inside,
    fun db held => sound.exclusive.unshared db object.db conn held inside.held, isOpen, ?_⟩
  intro verb now accepted
  simp only [LargeObjects.use, found, opened, if_true, locking, inside.held, Option.any_some,
    beq_iff_eq]
  by_cases locked : (this.pool.mem conn).running = 1
  · simp only [locked, if_true]
    exact ⟨rfl, rfl⟩
  · simp only [locked, if_false]
    exact ⟨rfl, rfl⟩

theorem closing_ends {waiting : LargeObjects} {index conn : Nat} {object : DataLargeObject}
    {failed : Bool} {answers : LargeObjectAnswers}
    (found : waiting.objects[index]? = some object)
    (inside : waiting.pool.InTransaction object.db conn) (reply : answers.reply = true) :
    let next := (waiting.push { index, conn := some conn, stage := .closing failed }).resume answers
    next.objects = waiting.objects ∧ next.frames = waiting.frames ∧ next.calls = waiting.calls ∧
      (next.pool.mem conn).isInTransaction = false ∧ (next.pool.mem conn).running = 0 ∧
      (next.pool.dbs object.db).lock = none ∧ next.session conn ≠ waiting.session conn ∧
      next.endings = waiting.endings ++ [if failed then .threw .libpq else .returned] := by
  obtain ⟨returns, outside, unlocked⟩ := @Pool.InTransaction.ends _ _ answers.now _ inside
  simp only [resume, push, found, proceed, endTransaction, reply, returns]
  refine ⟨modifyConn_objects _ _, rfl, modifyConn_calls _ _, ?_, ?_, unlocked, ?_, rfl⟩
  · simp [leave, finish, modifyConn, applyPool, Pool.modify, Connection.stopWork, Connection.touch,
      outside]
  · simp [leave, finish, modifyConn, Pool.modify, Connection.stopWork, Connection.touch]
  · simp [leave, finish, modifyConn, applyPool, session, PoolEvent.counted, PoolEvent.survives,
      outside]

/-- In the same runs, when nothing is to be done in the wait of `close` and its last command is
accepted, `close` calls `lo_close` on the descriptor of the object and leaves it closed and its
database outside of any transaction, with its connection idle; it throws exactly if `lo_close` has
failed. -/
theorem closed_object_ends {maxConn : Nat} {events : List LargeObjectEvent}
    (careful : Runs.Meets step Careful (initial maxConn) events) :
    let this := Runs.run step (initial maxConn) events
    ∀ (index : Nat) (object : DataLargeObject) (conn : Nat),
      this.objects[index]? = some object → object.opened = true →
      (this.pool.dbs object.db).conn = some conn → (this.pool.mem conn).running ≠ 1 →
      ∀ (now : Int) (accepted : Bool) (answers : LargeObjectAnswers), answers.reply = true →
        let next := (this.close index now accepted).resume answers
        next.objects[index]? =
            some { object with openedRead := false, openedWrite := false, fd := -1 } ∧
          IsOpen this.calls (this.session conn) object.oid object.fd ∧
          next.calls = this.calls ++ [(this.session conn, .close object.fd)] ∧
          (next.pool.mem conn).isInTransaction = false ∧ (next.pool.mem conn).running = 0 ∧
          (next.pool.dbs object.db).lock = none ∧ next.session conn ≠ this.session conn ∧
          next.frames = this.frames ∧
          next.endings = this.endings ++ [if accepted then .returned else .threw .libpq] := by
  intro this index object conn found opened held idle now accepted answers reply
  have sound : this.Sound := run_sound (initial_sound maxConn) careful
  clear_value this
  obtain ⟨taken, inside, isOpen⟩ := sound.backed object (List.mem_of_getElem? found) opened
  obtain rfl : taken = conn := Option.some.inj (inside.held.symm.trans held)
  have same := @startWork_same this (some taken) now
  obtain ⟨waiting, pool, transaction, objects, frames, calls, endings, closes⟩ :
      ∃ waiting : LargeObjects,
      waiting.pool = (this.modifyConn (some taken) (·.startWork now)).pool ∧
      waiting.transaction = this.transaction ∧
      waiting.objects = this.objects.set index
        { object with openedRead := false, openedWrite := false, fd := -1 } ∧
      waiting.frames = this.frames ∧
      waiting.calls = this.calls ++ [(this.session taken, .close object.fd)] ∧
      waiting.endings = this.endings ∧
      this.close index now accepted = waiting.push
        { index, conn := some taken, stage := .closing !accepted } := by
    simp only [LargeObjects.close, found, opened, if_true, locking, held, Option.any_some,
      beq_iff_eq, idle, if_false]
    refine ⟨_, ?_, ?_, ?_, ?_, ?_, ?_, rfl⟩ <;> rfl
  have closed : waiting.objects[index]? =
      some { object with openedRead := false, openedWrite := false, fd := -1 } := by
    rw [objects, List.getElem?_set_self (List.getElem?_eq_some_iff.mp found).1]
  have within : waiting.pool.InTransaction object.db taken := by
    rw [pool]
    exact same.inTransaction inside
  obtain ⟨allObjects, allFrames, allCalls, outside, stopped, unlocked, later, ending⟩ :=
    @closing_ends waiting _ _ _ (!accepted) answers closed within reply
  rw [closes]
  refine ⟨by rw [allObjects, closed], isOpen, allCalls.trans calls, outside, stopped, unlocked, ?_,
    allFrames.trans frames, ?_⟩
  · have before : waiting.session taken = this.session taken := by rw [session, session, transaction]
    rw [← before]
    exact later
  · rw [ending, endings]
    cases accepted <;> rfl

def willing : LargeObjectAnswers := { now := 0, dial := Pool.calm, reply := true, fd := 0 }

def openFirst : List LargeObjectEvent :=
  [.getLo 0 7, .openObject 0 invRead 0 Pool.calm, .resume willing]

theorem careful_openFirst : Runs.Meets step Careful (initial 1) openFirst := by
  refine ⟨⟨?_, ?_⟩, ⟨?_, ?_⟩, ⟨?_, ?_⟩, trivial⟩
  · rintro _ ⟨⟩
  · rintro _ ⟨⟩
  · rintro _ ⟨⟩
    exact (Pool.initial_known 1).handsOutFree fun _ _ conn _ _ => Nat.zero_le conn
  · rintro _ ⟨⟩ object listed opened
    obtain rfl := List.mem_singleton.mp listed
    cases opened
  · rintro _ ⟨⟩
    exact Pool.handsOutFree_unasked rfl
  · rintro _ ⟨⟩ object listed opened
    obtain rfl := List.mem_singleton.mp listed
    cases opened

theorem opened_object_read :
    let this := Runs.run step (initial 1) openFirst
    (∀ (other : Nat) (another : DataLargeObject), this.objects[other]? = some another →
      another.opened = true → another.db = 0 → other = 0) ∧
    ∃ conn, this.pool.InTransaction 0 conn ∧
      (∀ db, (this.pool.dbs db).conn = some conn → db = 0) ∧
      IsOpen this.calls (this.session conn) 7 0 ∧
      ∀ verb now accepted,
        let next := this.use verb 0 now accepted
        if (this.pool.mem conn).running = 1 then
          next.calls = this.calls ∧ next.endings = this.endings ++ [.threw alreadyLocked]
        else
          next.calls = this.calls ++ [(this.session conn, .use verb 0)] ∧
            next.endings = this.endings ++ [if accepted then .returned else .threw .libpq] :=
  opened_object_used careful_openFirst 0
    { db := 0, oid := 7, openedRead := true, openedWrite := false, fd := 0 } rfl rfl

theorem closed_object_idle :
    let this := Runs.run step (initial 1) openFirst
    let next := (this.close 0 0 true).resume willing
    next.objects[0]? =
        some { db := 0, oid := 7, openedRead := false, openedWrite := false, fd := -1 } ∧
      IsOpen this.calls (this.session 0) 7 0 ∧
      next.calls = this.calls ++ [(this.session 0, .close 0)] ∧
      (next.pool.mem 0).isInTransaction = false ∧ (next.pool.mem 0).running = 0 ∧
      (next.pool.dbs 0).lock = none ∧ next.session 0 ≠ this.session 0 ∧
      next.frames = this.frames ∧ next.endings = this.endings ++ [.returned] :=
  closed_object_ends careful_openFirst 0
    { db := 0, oid := 7, openedRead := true, openedWrite := false, fd := 0 } 0 rfl rfl rfl
    (by decide) 0 true willing rfl

end LargeObjects

end PqAsync
