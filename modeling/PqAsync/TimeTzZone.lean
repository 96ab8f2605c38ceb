import PqAsync.DateReaders
import PqAsync.Wire
import PqAsync.CheckedInt

/-!
Times with time zone between the wire and the clock: exactly which zones are kept by a reader that
takes every time for one in UTC.
-/

namespace PqAsync

def microseconds (now : BitVec 64) : BitVec 64 := BitVec.ofInt 64 (now.toInt / 1000)

def timeTzBytes (t : BitVec 64) (z : BitVec 32) : List UInt8 :=
  Bytes.bigEndian 8 t.toNat ++ Bytes.bigEndian 4 z.toNat

def utcTimeOfDay (t : BitVec 64) (z : BitVec 32) : BitVec 64 :=
  BitVec.ofInt 64 ((t.toInt + z.toInt * 1000000) % usecPerDay)

def KeepsInstant (now t : BitVec 64) (z : BitVec 32) : Prop :=
  (pgvalToTimeTz (microseconds now) (timeTzBytes t z) 0 12 >>= newParameterTimeTz) =
    .ok (.binary timetzOid (timeTzBytes (utcTimeOfDay t z) 0))

/-- What the server sends for a time: up to 24:00:00, and less than 16 hours from UTC. -/
structure ServerTimeTz (t : BitVec 64) (z : BitVec 32) : Prop where
  time : 0 ≤ t.toInt ∧ t.toInt ≤ usecPerDay
  zone : -57600 < z.toInt ∧ z.toInt < 57600

variable (now : BitVec 64) {t : BitVec 64} {z : BitVec 32}

theorem dayEpoch_add (day : 0 ≤ t.toInt ∧ t.toInt ≤ usecPerDay) :
    (t + BitVec.ofInt 64 ((microseconds now).toInt / usecPerDay * usecPerDay)).toInt =
      t.toInt + (microseconds now).toInt / usecPerDay * usecPerDay := by
  have below := @BitVec.toInt_lt 64 now
  have above := @BitVec.le_toInt 64 now
  have clock : (microseconds now).toInt = now.toInt / 1000 := by
    refine toInt_ofInt_fits ⟨?_, ?_⟩
    · omega
    · omega
  rw [clock]
  simp only [usecPerDay] at day ⊢
  have epoch : (BitVec.ofInt 64 (now.toInt / 1000 / 86400000000 * 86400000000)).toInt =
      now.toInt / 1000 / 86400000000 * 86400000000 := by
    refine toInt_ofInt_fits ⟨?_, ?_⟩
    · omega
    · omega
  rw [BitVec.toInt_add, epoch, Int.bmod_eq_of_le]
  · omega
  · omega

theorem reencode_timeTz (day : 0 ≤ t.toInt ∧ t.toInt ≤ usecPerDay) :
    (pgvalToTimeTz (microseconds now) (timeTzBytes t z) 0 12 >>= newParameterTimeTz) =
      .ok (.binary timetzOid (timeTzBytes (BitVec.ofInt 64 (t.toInt % usecPerDay)) 0)) := by
  have read : readInt64 (timeTzBytes t z) 0 = .ok t := (Holds.whole _).left.readInt64
  rw [pgvalToTimeTz, if_neg (by decide), read]
  change newParameterTimeTz { isNull := false, sysTime := t + BitVec.ofInt 64 _ } = _
  rw [newParameterTimeTz, if_neg (by simp), dayEpoch_add now day, Int.add_mul_emod_self_right]
  dsimp only
  rw [inMemory_swap8]
  rfl

theorem keepsInstant_iff (day : 0 ≤ t.toInt ∧ t.toInt ≤ usecPerDay) :
    KeepsInstant now t z ↔ z.toInt % 86400 = 0 := by
  have fits (x : Int) : FitsInt64 (x % usecPerDay) := by
    simp only [usecPerDay]
    constructor
    · omega
    · omega
  have same : KeepsInstant now t z ↔
      BitVec.ofInt 64 (t.toInt % usecPerDay) = utcTimeOfDay t z := by
    rw [KeepsInstant, reencode_timeTz now day]
    constructor
    · intro written
      have bytes := Option.some.inj (congrArg Parameter.value (Except.ok.inj written))
      exact bigEndian_injective 8 rfl (List.append_cancel_right bytes)
    · intro instant
      rw [instant]
  rw [same, utcTimeOfDay, ← BitVec.toInt_inj, toInt_ofInt_fits (fits _), toInt_ofInt_fits (fits _)]
  simp only [usecPerDay]
  omega

/-- On every date, of the zones that the server has just that of UTC is kept. -/
theorem timeTz_keeps_instant_iff (server : ServerTimeTz t z) : KeepsInstant now t z ↔ z = 0 := by
  rw [keepsInstant_iff now server.time]
  obtain ⟨west, east⟩ := server.zone
  constructor
  · intro whole
    apply BitVec.eq_of_toInt_eq
    change z.toInt = 0
    omega
  · rintro rfl
    rfl

theorem timeTz_keeps_noon : KeepsInstant 0 43200000000 0 :=
  (timeTz_keeps_instant_iff 0 ⟨by decide, by decide⟩).mpr rfl

theorem timeTz_moves_noon : ServerTimeTz 43200000000 (BitVec.ofInt 32 (-3600)) ∧
    utcTimeOfDay 43200000000 (BitVec.ofInt 32 (-3600)) = 39600000000 ∧
      ¬KeepsInstant 0 43200000000 (BitVec.ofInt 32 (-3600)) := by
  refine ⟨⟨by decide, by decide⟩, by decide, ?_⟩
  rw [keepsInstant_iff 0 (by decide)]
  decide

end PqAsync
