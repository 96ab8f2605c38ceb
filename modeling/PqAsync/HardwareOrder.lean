import PqAsync.Library.ThreeWay
import PqAsync.CellReaders
import PqAsync.TextArrays

/-!
The comparison operators of `uuid`, `macaddr` and `macaddr8` are the lexicographic order of the
bytes, but for `>` of a `uuid` with itself.
-/

namespace PqAsync

open ThreeWay

section Uuids

def uuidEqual : List UInt8 → List UInt8 → Bool
  | this :: rest, b :: bs => if this ≠ b then false else uuidEqual rest bs
  | _, _ => true

def uuidLess : List UInt8 → List UInt8 → Bool
  | this :: rest, b :: bs =>
      if this > b then false
      else if this < b then true
      else uuidLess rest bs
  | _, _ => false

def Uuid.equal (this b : Uuid) : Bool := uuidEqual this.bytes b.bytes

def Uuid.notEqual (this b : Uuid) : Bool := !this.equal b

def Uuid.less (this b : Uuid) : Bool := uuidLess this.bytes b.bytes

def Uuid.greater (this b : Uuid) : Bool := !this.less b

def Uuid.lessEqual (this b : Uuid) : Bool := this.less b || this.equal b

def Uuid.greaterEqual (this b : Uuid) : Bool := this.greater b || this.equal b

def Uuid.operators : Operators Uuid where
  equal := Uuid.equal
  notEqual := Uuid.notEqual
  less := Uuid.less
  lessEqual := Uuid.lessEqual
  greater := Uuid.greater
  greaterEqual := Uuid.greaterEqual

def byteNumbers (bytes : List UInt8) : List Nat := bytes.map UInt8.toNat

theorem byteNumbers_inj {l r : List UInt8} : byteNumbers l = byteNumbers r ↔ l = r :=
  List.map_inj_right fun _ _ => UInt8.toNat_inj.mp

theorem uuidEqual_iff {l r : List UInt8} (length : l.length = r.length) :
    uuidEqual l r = true ↔ l = r := by
  induction l generalizing r with
  | nil =>
      obtain rfl := List.length_eq_zero_iff.mp length.symm
      exact iff_of_true rfl rfl
  | cons this rest ih =>
      cases r with
      | nil => cases length
      | cons b bs =>
          rw [uuidEqual, List.cons.injEq, ← ih (Nat.succ.inj length)]
          by_cases same : this = b
          · rw [if_neg (not_not.mpr same), and_iff_right same]
          · rw [if_pos same]
            exact iff_of_false Bool.false_ne_true fun both => same both.1

theorem uuidLess_iff {l r : List UInt8} (length : l.length = r.length) :
    uuidLess l r = true ↔ byteNumbers l < byteNumbers r := by
  induction l generalizing r with
  | nil =>
      obtain rfl := List.length_eq_zero_iff.mp length.symm
      exact iff_of_false Bool.false_ne_true (lt_irrefl _)
  | cons this rest ih =>
      cases r with
      | nil => cases length
      | cons b bs =>
          have numbers : byteNumbers (this :: rest) < byteNumbers (b :: bs) ↔
              this.toNat < b.toNat ∨ this.toNat = b.toNat ∧ byteNumbers rest < byteNumbers bs :=
            List.cons_lt_cons_iff
          have above : this > b ↔ b.toNat < this.toNat := UInt8.lt_iff_toNat_lt
          have below : this < b ↔ this.toNat < b.toNat := UInt8.lt_iff_toNat_lt
          rw [uuidLess, numbers, ← ih (Nat.succ.inj length)]
          rcases lt_trichotomy this.toNat b.toNat with less | equal | more
          · rw [if_neg (mt above.mp less.not_gt), if_pos (below.mpr less)]
            exact iff_of_true rfl (.inl less)
          · rw [if_neg (mt above.mp equal.not_gt), if_neg (mt below.mp equal.not_lt),
              or_iff_right equal.not_lt, and_iff_right equal]
          · rw [if_pos (above.mpr more)]
            exact iff_of_false Bool.false_ne_true fun either =>
              either.elim more.not_gt fun same => more.ne' same.1

variable {u v : Uuid}

theorem Uuid.equal_iff : u.equal v = true ↔ byteNumbers u.bytes = byteNumbers v.bytes :=
  (uuidEqual_iff (u.size.trans v.size.symm)).trans byteNumbers_inj.symm

theorem Uuid.less_iff : u.less v = true ↔ byteNumbers u.bytes < byteNumbers v.bytes :=
  uuidLess_iff (u.size.trans v.size.symm)

theorem Uuid.greater_iff : u.greater v = true ↔ byteNumbers u.bytes ≥ byteNumbers v.bytes := by
  rw [Uuid.greater, Bool.not_eq_true', ← Bool.not_eq_true, Uuid.less_iff]
  exact not_lt

theorem Uuid.lessEqual_iff : u.lessEqual v = true ↔ byteNumbers u.bytes ≤ byteNumbers v.bytes := by
  rw [Uuid.lessEqual, Bool.or_eq_true, Uuid.less_iff, Uuid.equal_iff]
  exact le_iff_lt_or_eq.symm

theorem Uuid.greaterEqual_iff :
    u.greaterEqual v = true ↔ byteNumbers u.bytes ≥ byteNumbers v.bytes := by
  rw [Uuid.greaterEqual, Bool.or_eq_true, Uuid.greater_iff, Uuid.equal_iff]
  exact or_iff_left_of_imp fun same => same.ge

theorem Uuid.orderBy_iff :
    Uuid.operators.OrderBy (fun u => byteNumbers u.bytes) u v ↔ u.bytes ≠ v.bytes := by
  constructor
  · intro orderBy same
    have numbers := congrArg byteNumbers same
    exact absurd (orderBy.greater.mp (Uuid.greater_iff.mpr numbers.ge)) numbers.not_gt
  · intro differ
    have apart : byteNumbers u.bytes ≠ byteNumbers v.bytes := mt byteNumbers_inj.mp differ
    constructor
    · exact Uuid.equal_iff
    · change (!u.equal v) = true ↔ _
      rw [Bool.not_eq_true', ← Bool.not_eq_true, Uuid.equal_iff]
    · exact Uuid.less_iff
    · exact Uuid.lessEqual_iff
    · exact Uuid.greater_iff.trans apart.symm.le_iff_lt
    · exact Uuid.greaterEqual_iff

end Uuids

section HardwareAddresses

/-- A byte as an `int`. -/
def promoted (byte : UInt8) : BitVec 32 := byte.toBitVec.setWidth 32

/-- An `int` as an `unsigned long`, with copies of its sign. -/
def unsignedLong (x : BitVec 32) : BitVec 64 := x.signExtend 64

def macaddrHibits (addr : Macaddr) : BitVec 64 :=
  unsignedLong (promoted addr.a <<< 16 ||| promoted addr.b <<< 8 ||| promoted addr.c)

def macaddrLobits (addr : Macaddr) : BitVec 64 :=
  unsignedLong (promoted addr.d <<< 16 ||| promoted addr.e <<< 8 ||| promoted addr.f)

def macaddr8Hibits (addr : Macaddr8) : BitVec 64 :=
  unsignedLong (promoted addr.a <<< 24 ||| promoted addr.b <<< 16 ||| promoted addr.c <<< 8 |||
    promoted addr.d)

def macaddr8Lobits (addr : Macaddr8) : BitVec 64 :=
  unsignedLong (promoted addr.e <<< 24 ||| promoted addr.f <<< 16 ||| promoted addr.g <<< 8 |||
    promoted addr.h)

def cmpInternal {α : Type} (hibits lobits : α → BitVec 64) (a1 a2 : α) : Int :=
  if hibits a1 < hibits a2 then -1
  else if hibits a1 > hibits a2 then 1
  else if lobits a1 < lobits a2 then -1
  else if lobits a1 > lobits a2 then 1
  else 0

def macaddrCmpInternal : Macaddr → Macaddr → Int := cmpInternal macaddrHibits macaddrLobits

def macaddr8CmpInternal : Macaddr8 → Macaddr8 → Int := cmpInternal macaddr8Hibits macaddr8Lobits

def Macaddr.operators : Operators Macaddr := .ofCmp macaddrCmpInternal

def Macaddr8.operators : Operators Macaddr8 := .ofCmp macaddr8CmpInternal

def Macaddr.bytes (addr : Macaddr) : List UInt8 :=
  [addr.a, addr.b, addr.c, addr.d, addr.e, addr.f]

def Macaddr8.bytes (addr : Macaddr8) : List UInt8 :=
  [addr.a, addr.b, addr.c, addr.d, addr.e, addr.f, addr.g, addr.h]

theorem unsignedLong_lt {x y : BitVec 32} (less : x < y) : unsignedLong x < unsignedLong y := by
  rw [BitVec.lt_def] at less ⊢
  rw [unsignedLong, unsignedLong, BitVec.toNat_signExtend, BitVec.toNat_signExtend,
    BitVec.toNat_setWidth_of_le (by decide), BitVec.toNat_setWidth_of_le (by decide),
    BitVec.msb_eq_decide, BitVec.msb_eq_decide]
  split_ifs with highX highY highY
  · omega
  · simp only [decide_eq_true_eq] at highX highY
    omega
  · omega
  · omega

theorem promoted_shift (byte : UInt8) {i : Nat} (inside : i ≤ 24) :
    (promoted byte <<< i).toNat = byte.toNat <<< i := by
  have small := byte.toNat_lt
  have power : 2 ^ i ≤ 2 ^ 24 := Nat.pow_le_pow_right (by decide) inside
  have product : byte.toNat * 2 ^ i < 2 ^ 32 :=
    calc byte.toNat * 2 ^ i ≤ 255 * 2 ^ 24 := Nat.mul_le_mul (by omega) power
      _ < 2 ^ 32 := by decide
  rw [BitVec.toNat_shiftLeft, promoted, BitVec.toNat_setWidth_of_le (by decide),
    UInt8.toNat_toBitVec, Nat.shiftLeft_eq]
  exact Nat.mod_eq_of_lt product

def packed (n : Nat) (bytes : List UInt8) : Nat := bytes.foldl (fun n byte => n * 256 + byte.toNat) n

theorem packed_cons (n : Nat) (byte : UInt8) (bytes : List UInt8) :
    packed n (byte :: bytes) = packed (n * 256 + byte.toNat) bytes := rfl

theorem packed_lt {l r : List UInt8} {n m : Nat} (length : l.length = r.length)
    (less : packed n l < packed m r) : n < m ∨ n = m ∧ byteNumbers l < byteNumbers r := by
  induction l generalizing r n m with
  | nil =>
      obtain rfl := List.length_eq_zero_iff.mp length.symm
      exact .inl less
  | cons a l ih =>
      cases r with
      | nil => cases length
      | cons b r =>
          have boundA := a.toNat_lt
          have boundB := b.toNat_lt
          have numbers : byteNumbers (a :: l) < byteNumbers (b :: r) ↔
              a.toNat < b.toNat ∨ a.toNat = b.toNat ∧ byteNumbers l < byteNumbers r :=
            List.cons_lt_cons_iff
          rw [packed_cons, packed_cons] at less
          rw [numbers]
          rcases ih (Nat.succ.inj length) less with earlier | ⟨same, later⟩
          · omega
          · exact .inr ⟨by omega, .inr ⟨by omega, later⟩⟩

theorem packed_inj {l r : List UInt8} {n m : Nat} (length : l.length = r.length)
    (same : packed n l = packed m r) : n = m ∧ l = r := by
  induction l generalizing r n m with
  | nil =>
      obtain rfl := List.length_eq_zero_iff.mp length.symm
      exact ⟨same, rfl⟩
  | cons a l ih =>
      cases r with
      | nil => cases length
      | cons b r =>
          have boundA := a.toNat_lt
          have boundB := b.toNat_lt
          rw [packed_cons, packed_cons] at same
          obtain ⟨numbers, rfl⟩ := ih (Nat.succ.inj length) same
          obtain rfl : a = b := UInt8.toNat_inj.mp (by omega)
          exact ⟨by omega, rfl⟩

theorem packed_orders {l r : List UInt8} (length : l.length = r.length) :
    Orders (if packed 0 l < packed 0 r then -1 else if packed 0 r < packed 0 l then 1 else 0)
      (byteNumbers l) (byteNumbers r) := by
  refine (Orders.of_ifs (packed 0 l) (packed 0 r)).transfer ?_ ?_ ?_
  · intro below
    exact ((packed_lt length below).resolve_left (lt_irrefl 0)).2
  · intro same
    exact congrArg byteNumbers (packed_inj length same).2
  · intro above
    exact ((packed_lt length.symm above).resolve_left (lt_irrefl 0)).2

theorem shifted_pair (high i : Nat) {low : Nat} (small : low < 256) :
    high <<< (i + 8) ||| low <<< i = (high * 256 + low) <<< i := by
  have pair : high <<< 8 ||| low = high * 256 + low := by
    rw [← Nat.shiftLeft_add_eq_or_of_lt (i := 8) small, Nat.shiftLeft_eq]
  rw [← pair, Nat.shiftLeft_or_distrib, Nat.add_comm i, Nat.shiftLeft_add]

theorem three_bytes (a b c : UInt8) :
    (promoted a <<< 16 ||| promoted b <<< 8 ||| promoted c).toNat = packed 0 [a, b, c] := by
  have low := promoted_shift c (i := 0) (by decide)
  rw [BitVec.shiftLeft_zero] at low
  rw [BitVec.toNat_or, BitVec.toNat_or, promoted_shift a (by decide), promoted_shift b (by decide),
    low, shifted_pair _ 8 b.toNat_lt, shifted_pair _ 0 c.toNat_lt, Nat.shiftLeft_zero]
  simp only [packed, List.foldl_cons, List.foldl_nil, Nat.zero_mul, Nat.zero_add]

theorem four_bytes (a b c d : UInt8) :
    (promoted a <<< 24 ||| promoted b <<< 16 ||| promoted c <<< 8 ||| promoted d).toNat =
      packed 0 [a, b, c, d] := by
  have low := promoted_shift d (i := 0) (by decide)
  rw [BitVec.shiftLeft_zero] at low
  rw [BitVec.toNat_or, BitVec.toNat_or, BitVec.toNat_or, promoted_shift a (by decide),
    promoted_shift b (by decide), promoted_shift c (by decide), low,
    shifted_pair _ 16 b.toNat_lt, shifted_pair _ 8 c.toNat_lt, shifted_pair _ 0 d.toNat_lt,
    Nat.shiftLeft_zero]
  simp only [packed, List.foldl_cons, List.foldl_nil, Nat.zero_mul, Nat.zero_add]

theorem unsignedLong_lt_iff {x y : BitVec 32} :
    unsignedLong x < unsignedLong y ↔ x.toNat < y.toNat := by
  constructor
  · intro less
    rcases lt_trichotomy x.toNat y.toNat with below | same | above
    · exact below
    · rw [BitVec.toNat_inj.mp same, BitVec.lt_def] at less
      exact absurd less (lt_irrefl _)
    · have more := unsignedLong_lt (BitVec.lt_def.mpr above)
      rw [BitVec.lt_def] at less more
      omega
  · intro less
    exact unsignedLong_lt (BitVec.lt_def.mpr less)

theorem unsignedLong_bytes {x y : BitVec 32} {l r : List UInt8} (packedX : x.toNat = packed 0 l)
    (packedY : y.toNat = packed 0 r) :
    unsignedLong x < unsignedLong y ↔ packed 0 l < packed 0 r := by
  rw [unsignedLong_lt_iff, packedX, packedY]

theorem cmpInternal_orders {α : Type} {hibits lobits : α → BitVec 64} (high low : α → List UInt8)
    (hibits_lt : ∀ a b, hibits a < hibits b ↔ packed 0 (high a) < packed 0 (high b))
    (lobits_lt : ∀ a b, lobits a < lobits b ↔ packed 0 (low a) < packed 0 (low b)) (a1 a2 : α)
    (highLength : (high a1).length = (high a2).length)
    (lowLength : (low a1).length = (low a2).length) :
    Orders (cmpInternal hibits lobits a1 a2) (byteNumbers (high a1 ++ low a1))
      (byteNumbers (high a2 ++ low a2)) := by
  have halves := Orders.append (by rw [byteNumbers, byteNumbers, List.length_map, List.length_map,
    highLength]) (packed_orders highLength) (packed_orders lowLength)
  rw [byteNumbers, byteNumbers, List.map_append, List.map_append]
  simp only [cmpInternal, gt_iff_lt, hibits_lt, lobits_lt]
  by_cases below : packed 0 (high a1) < packed 0 (high a2)
  · simp only [below, if_true] at halves ⊢
    exact halves
  · by_cases above : packed 0 (high a2) < packed 0 (high a1)
    · simp only [below, above, if_true, if_false] at halves ⊢
      exact halves
    · simp only [below, above, if_false, thenBy_zero] at halves ⊢
      exact halves

theorem macaddrHibits_lt (m n : Macaddr) : macaddrHibits m < macaddrHibits n ↔
    packed 0 [m.a, m.b, m.c] < packed 0 [n.a, n.b, n.c] :=
  unsignedLong_bytes (three_bytes m.a m.b m.c) (three_bytes n.a n.b n.c)

theorem macaddrLobits_lt (m n : Macaddr) : macaddrLobits m < macaddrLobits n ↔
    packed 0 [m.d, m.e, m.f] < packed 0 [n.d, n.e, n.f] :=
  unsignedLong_bytes (three_bytes m.d m.e m.f) (three_bytes n.d n.e n.f)

theorem macaddr_orders (m n : Macaddr) :
    Orders (macaddrCmpInternal m n) (byteNumbers m.bytes) (byteNumbers n.bytes) := by
  have orders := cmpInternal_orders (fun m : Macaddr => [m.a, m.b, m.c]) (fun m => [m.d, m.e, m.f])
    macaddrHibits_lt macaddrLobits_lt m n rfl rfl
  exact orders

theorem macaddr8Hibits_lt (m n : Macaddr8) : macaddr8Hibits m < macaddr8Hibits n ↔
    packed 0 [m.a, m.b, m.c, m.d] < packed 0 [n.a, n.b, n.c, n.d] :=
  unsignedLong_bytes (four_bytes m.a m.b m.c m.d) (four_bytes n.a n.b n.c n.d)

theorem macaddr8Lobits_lt (m n : Macaddr8) : macaddr8Lobits m < macaddr8Lobits n ↔
    packed 0 [m.e, m.f, m.g, m.h] < packed 0 [n.e, n.f, n.g, n.h] :=
  unsignedLong_bytes (four_bytes m.e m.f m.g m.h) (four_bytes n.e n.f n.g n.h)

theorem macaddr8_orders (m n : Macaddr8) :
    Orders (macaddr8CmpInternal m n) (byteNumbers m.bytes) (byteNumbers n.bytes) := by
  have orders := cmpInternal_orders (fun m : Macaddr8 => [m.a, m.b, m.c, m.d])
    (fun m => [m.e, m.f, m.g, m.h]) macaddr8Hibits_lt macaddr8Lobits_lt m n rfl rfl
  exact orders

end HardwareAddresses

section Identifiers

inductive IdentifierType
  | uuid
  | macaddr
  | macaddr8

def IdentifierType.Value : IdentifierType → Type
  | uuid => Uuid
  | macaddr => Macaddr
  | macaddr8 => Macaddr8

def IdentifierType.operators : (type : IdentifierType) → Operators type.Value
  | uuid => Uuid.operators
  | macaddr => Macaddr.operators
  | macaddr8 => Macaddr8.operators

def IdentifierType.bytes : (type : IdentifierType) → type.Value → List UInt8
  | uuid => Uuid.bytes
  | macaddr => Macaddr.bytes
  | macaddr8 => Macaddr8.bytes

/-- The operators are the lexicographic order of the bytes, so that one of the three holds and `>=`
is the negation of `<`. -/
structure Lexicographic (type : IdentifierType) (a b : type.Value) : Prop where
  orderBy : type.operators.OrderBy (fun value => byteNumbers (type.bytes value)) a b
  trichotomy : (type.operators.less a b).toNat + (type.operators.equal a b).toNat +
    (type.operators.greater a b).toNat = 1
  greaterEqual : type.operators.greaterEqual a b = !type.operators.less a b

theorem lexicographic_of_orderBy {type : IdentifierType} {a b : type.Value}
    (orderBy : type.operators.OrderBy (fun value => byteNumbers (type.bytes value)) a b) :
    Lexicographic type a b :=
  ⟨orderBy, orderBy.trichotomy, orderBy.greaterEqual_eq_not⟩

/-- Only a `uuid` and an equal one are not compared by their bytes. -/
theorem lexicographic_iff (type : IdentifierType) (a b : type.Value) :
    Lexicographic type a b ↔ type = .uuid → type.bytes a ≠ type.bytes b := by
  cases type with
  | uuid =>
      have orderBy := Uuid.orderBy_iff (u := a) (v := b)
      constructor
      · intro lexicographic _
        exact orderBy.mp lexicographic.orderBy
      · intro differ
        exact lexicographic_of_orderBy (orderBy.mpr (differ rfl))
  | macaddr =>
      refine iff_of_true ?_ (fun same => by cases same)
      exact lexicographic_of_orderBy (Operators.ofCmp_orderBy (macaddr_orders a b))
  | macaddr8 =>
      refine iff_of_true ?_ (fun same => by cases same)
      exact lexicographic_of_orderBy (Operators.ofCmp_orderBy (macaddr8_orders a b))

theorem uuid_greater_itself :
    ¬ Lexicographic .uuid emptyUuid emptyUuid ∧
      Uuid.operators.greater emptyUuid emptyUuid = true ∧
      Uuid.operators.equal emptyUuid emptyUuid = true := by
  refine ⟨?_, by decide, by decide⟩
  intro lexicographic
  exact absurd lexicographic.trichotomy (by decide)

end Identifiers

end PqAsync
