import PqAsync.RangeCore
import PqAsync.ValueCodecs

/-!
The wire form of a range from the payloads of its bounds, that the encoder computes its length
and writes it, and what the reader makes of a place that holds it.
-/

namespace PqAsync

open Results

theorem addInt_ok {x y : Int} (low : -2147483648 ≤ x + y) (high : x + y < 2147483648) :
    addInt x y = .ok (x + y) := by
  rw [addInt, if_pos]
  constructor
  · norm_num
    exact low
  · norm_num
    exact high

section

variable {α : Type}

def presentBytes (present : Bool) (bytes : List UInt8) : List UInt8 :=
  if present then wireNat bytes.length ++ bytes else []

def BoundRange.form (payload : α → List UInt8) (value : BoundRange α) : List UInt8 :=
  .ofBitVec (value.flags.setWidth 8) ::
    (presentBytes value.hasLbound (payload value.lb) ++
      presentBytes value.hasUbound (payload value.ub))

theorem presentBytes_short {present : Bool} {bytes : List UInt8}
    (short : present = true → bytes.length ≤ 65542) :
    (presentBytes present bytes).length ≤ 65546 := by
  cases present with
  | false => simp [presentBytes]
  | true =>
      have few := short rfl
      rw [presentBytes, if_pos rfl, List.length_append, length_wireNat]
      omega

theorem form_short {payload : α → List UInt8} {value : BoundRange α}
    (lower : value.hasLbound = true → (payload value.lb).length ≤ 65542)
    (upper : value.hasUbound = true → (payload value.ub).length ≤ 65542) :
    (value.form payload).length < 2147483648 := by
  have lowerShort := presentBytes_short lower
  have upperShort := presentBytes_short upper
  rw [BoundRange.form, List.length_cons, List.length_append]
  omega

structure BoundEncoder.Encodes (encoder : BoundEncoder α) (bound : α) (bytes : List UInt8) :
    Prop where
  length : encoder.length bound = .ok bytes.length
  memory : encoder.memory bound = .ok bytes

variable {encoder : BoundEncoder α} {bound : α} {bytes : List UInt8}

theorem addBound_ok {present : Bool} (encodes : present = true → encoder.Encodes bound bytes)
    {len : Int} (nonneg : 0 ≤ len)
    (small : len + (presentBytes present bytes).length < 2147483648) :
    addBound encoder present bound len = .ok (len + (presentBytes present bytes).length) := by
  cases present with
  | false => simp [addBound, presentBytes]
  | true =>
      have total : ((presentBytes true bytes).length : Int) = 4 + bytes.length := by
        simp [presentBytes, length_wireNat]
      rw [total] at small ⊢
      rw [addBound, if_pos rfl, (encodes rfl).length]
      refine bind_ok.mpr ⟨_, rfl, bind_ok.mpr ⟨_, addInt_ok (by omega) (by omega), ?_⟩⟩
      exact addInt_ok (by omega) small

theorem writeBound_ok {present : Bool} (encodes : present = true → encoder.Encodes bound bytes) :
    writeBound encoder present bound = .ok (presentBytes present bytes) := by
  cases present with
  | false => rfl
  | true =>
      have length : inMemory 4 (swap4 (BitVec.ofInt 32 bytes.length) true) =
          wireNat bytes.length := by
        rw [inMemory_swap4, BitVec.ofInt_natCast]
        rfl
      rw [writeBound, if_pos rfl, (encodes rfl).length]
      change (encoder.memory bound >>= fun bytes => _) = _
      rw [(encodes rfl).memory, length]
      rfl

theorem newParameterBounds_form {payload : α → List UInt8} {value : BoundRange α}
    (lower : value.hasLbound = true → encoder.Encodes value.lb (payload value.lb))
    (upper : value.hasUbound = true → encoder.Encodes value.ub (payload value.ub))
    (small : (value.form payload).length < 2147483648) (oid : Nat) :
    newParameterBounds encoder oid value =
      .ok { oid, value := some (value.form payload), length := (value.form payload).length,
            format := 1 } := by
  have total : ((value.form payload).length : Int) = 1 +
      (presentBytes value.hasLbound (payload value.lb)).length +
      (presentBytes value.hasUbound (payload value.ub)).length := by
    rw [BoundRange.form, List.length_cons, List.length_append]
    push_cast
    ring
  have first := addBound_ok lower (show (0 : Int) ≤ 1 by decide) (by omega)
  have second := addBound_ok upper
    (show 0 ≤ 1 + ((presentBytes value.hasLbound (payload value.lb)).length : Int) by omega)
    (by omega)
  rw [← total] at second
  rw [newParameterBounds]
  refine bind_ok.mpr ⟨_, first, bind_ok.mpr ⟨_, second, bind_ok.mpr ⟨(), ?_, ?_⟩⟩⟩
  · rw [newBuffer, if_neg (by omega)]
  · exact bind_ok.mpr ⟨_, writeBound_ok lower, bind_ok.mpr ⟨_, writeBound_ok upper,
      fillBuffer_of_length⟩⟩

variable {absent : α} {pgvalToBound : Reader α} {buffer : List UInt8}

def boundOr (absent : α) (present : Bool) (decoded : Except WireError α) : Except WireError α :=
  if present then decoded else .ok absent

theorem readBoundOr_holds {present : Bool} {decoded : Except WireError α} {out : Int}
    (small : present = true → bytes.length < 2 ^ 31)
    (holds : Holds buffer out (presentBytes present bytes))
    (reads : present = true → Holds buffer (out + 4) bytes →
      pgvalToBound buffer (out + 4) bytes.length = decoded) :
    readBoundOr absent pgvalToBound buffer present out = do
      let bound ← boundOr absent present decoded
      return (bound, out + (presentBytes present bytes).length) := by
  cases present with
  | false => simp [readBoundOr, boundOr, presentBytes, bind, Except.bind, pure, Except.pure]
  | true =>
      have length : pgvalToInt32 buffer out 4 = .ok (BitVec.ofNat 32 bytes.length) :=
        pgvalToInt32_holds (by decide) holds.left
      have own : Holds buffer (out + 4) bytes := holds.after (by rw [length_wireNat]; rfl)
      have total : out + ((presentBytes true bytes).length : Int) = out + 4 + bytes.length := by
        simp [presentBytes, length_wireNat, add_assoc]
      rw [readBoundOr, boundOr, if_pos rfl, if_pos rfl, length, total]
      simp only [bind, Except.bind, pure, Except.pure, ofNat_toInt (small rfl)]
      rw [reads rfl own]

def ReadsAs (pgvalToBound : Reader α) (bytes : List UInt8) (decoded : Except WireError α) : Prop :=
  ∀ {buffer : List UInt8} {offset : Int}, Holds buffer offset bytes →
    pgvalToBound buffer offset bytes.length = decoded

def sentFlags (flags : BitVec 32) : BitVec 32 := (flags.setWidth 8).signExtend 32

theorem sentFlags_mask (flags : BitVec 32) (mask : Nat) (small : mask < 256) :
    sentFlags flags &&& BitVec.ofNat 32 mask = flags &&& BitVec.ofNat 32 mask :=
  Range.mask_eq mask small (setWidth_signExtend _)

theorem pgvalToBoundsFrom_holds {payload : α → List UInt8} {decoded : α → Except WireError α}
    {value : BoundRange α} {offset : Int}
    (lower : value.hasLbound = true → (payload value.lb).length < 2 ^ 31 ∧
      ReadsAs pgvalToBound (payload value.lb) (decoded value.lb))
    (upper : value.hasUbound = true → (payload value.ub).length < 2 ^ 31 ∧
      ReadsAs pgvalToBound (payload value.ub) (decoded value.ub))
    (holds : Holds buffer offset (value.form payload)) (len : Int) :
    pgvalToBoundsFrom absent pgvalToBound buffer offset len = do
      let lb ← boundOr absent value.hasLbound (decoded value.lb)
      let ub ← boundOr absent value.hasUbound (decoded value.ub)
      return ({ flags := sentFlags value.flags, lb, ub },
        offset + (value.form payload).length) := by
  have hasLbound (lb ub : α) :
      BoundRange.hasLbound { flags := sentFlags value.flags, lb, ub } = value.hasLbound :=
    congrArg (· == 0) (sentFlags_mask value.flags 0x29 (by decide))
  have hasUbound (lb ub : α) :
      BoundRange.hasUbound { flags := sentFlags value.flags, lb, ub } = value.hasUbound :=
    congrArg (· == 0) (sentFlags_mask value.flags 0x51 (by decide))
  have bounds := holds.tail
  have total : offset + ((value.form payload).length : Int) = offset + 1 +
      (presentBytes value.hasLbound (payload value.lb)).length +
      (presentBytes value.hasUbound (payload value.ub)).length := by
    rw [BoundRange.form, List.length_cons, List.length_append]
    push_cast
    ring
  have first := @readBoundOr_holds _ _ absent pgvalToBound _ _ _ _
    (fun present => (lower present).1) bounds.left (fun present own => (lower present).2 own)
  have second := @readBoundOr_holds _ _ absent pgvalToBound _ _ _ _
    (fun present => (upper present).1) bounds.right (fun present own => (upper present).2 own)
  rw [pgvalToBoundsFrom, holds.readByte, total]
  change (readBoundOr absent pgvalToBound buffer
    (BoundRange.hasLbound { flags := sentFlags value.flags, lb := absent, ub := absent })
    (offset + 1) >>= fun read => _) = _
  rw [hasLbound, first]
  cases boundOr absent value.hasLbound (decoded value.lb) with
  | error failure => rfl
  | ok lb =>
      change (readBoundOr absent pgvalToBound buffer
        (BoundRange.hasUbound { flags := sentFlags value.flags, lb := absent, ub := absent })
        _ >>= fun read => _) = _
      rw [hasUbound, second]
      cases boundOr absent value.hasUbound (decoded value.ub) with
      | error failure => rfl
      | ok ub => rfl

end

end PqAsync
