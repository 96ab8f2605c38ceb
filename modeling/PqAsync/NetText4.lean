import PqAsync.NetCompare
import PqAsync.NetTextBounds

/-!
IPv4 addresses as texts and back. What the printer writes fits its buffer, no text makes a parser
read behind its end, and an address comes back from its text with its prefix length.
-/

namespace PqAsync

open Results

section Printing

def pointed (octets : List UInt8) : List Char :=
  octets.flatMap fun octet => '.' :: Nat.toDigits 10 octet.toNat

def dotted : List UInt8 → List Char
  | [] => []
  | octet :: octets => Nat.toDigits 10 octet.toNat ++ pointed octets

def slashed (width bits : Nat) : List Char :=
  if bits ≠ width then '/' :: Nat.toDigits 10 bits else []

theorem length_octet (octet : UInt8) : (Nat.toDigits 10 octet.toNat).length ≤ 3 :=
  (Nat.length_toDigits_le_iff (by decide) (by decide)).mpr (octet.toNat_lt.trans (by decide))

theorem length_pointed (octets : List UInt8) : (pointed octets).length ≤ 4 * octets.length := by
  induction octets with
  | nil => exact Nat.le_refl 0
  | cons octet octets ih =>
      have short := length_octet octet
      rw [pointed, List.flatMap_cons, ← pointed, List.length_append, List.length_cons,
        List.length_cons]
      omega

theorem sprintf_fits {size : Nat} {printed text : List Char}
    (room : printed.length + text.length < size) : sprintf size printed text = .ok (printed ++ text) :=
  if_pos room

theorem octetsInto_pointed {size : Nat} {octets : List UInt8} {printed : List Char}
    (begun : printed ≠ []) (room : printed.length + 4 * octets.length + 2 ≤ size) :
    octetsInto size octets (size - printed.length) printed =
      .ok (some (size - (printed ++ pointed octets).length, printed ++ pointed octets)) := by
  induction octets generalizing printed with
  | nil => rw [octetsInto, pointed, List.flatMap_nil, List.append_nil]
  | cons octet octets ih =>
      have short := length_octet octet
      have present : printed.length ≠ 0 := fun empty => begun (List.length_eq_zero_iff.mp empty)
      rw [List.length_cons] at room
      have written : (printed ++ '.' :: Nat.toDigits 10 octet.toNat).length =
          printed.length + (Nat.toDigits 10 octet.toNat).length + 1 := by
        rw [List.length_append, List.length_cons]
        omega
      have wide : ".255".length + 1 = 5 := rfl
      have point : putChar size printed '.' = .ok (printed ++ ['.']) := if_pos (by omega)
      have digits : sprintf size (printed ++ ['.']) (Nat.toDigits 10 octet.toNat) =
          .ok (printed ++ '.' :: Nat.toDigits 10 octet.toNat) := by
        rw [sprintf_fits (by rw [List.length_append, List.length_singleton]; omega),
          List.append_assoc, List.singleton_append]
      have left : size - printed.length -
          ((printed ++ '.' :: Nat.toDigits 10 octet.toNat).length - printed.length) =
          size - (printed ++ '.' :: Nat.toDigits 10 octet.toNat).length := by
        omega
      rw [octetsInto, if_neg (by omega), if_pos present, point, ok_bind]
      dsimp only
      rw [digits, ok_bind, left, ih (by simp) (by omega), List.append_assoc]
      rfl

theorem octetsInto_dotted {size : Nat} {octet : UInt8} {octets : List UInt8}
    (room : 4 * octets.length + 6 ≤ size) :
    octetsInto size (octet :: octets) size [] =
      .ok (some (size - (dotted (octet :: octets)).length, dotted (octet :: octets))) := by
  have short := length_octet octet
  have wide : ".255".length + 1 = 5 := rfl
  have digits : sprintf size [] (Nat.toDigits 10 octet.toNat) = .ok (Nat.toDigits 10 octet.toNat) :=
    sprintf_fits (by rw [List.length_nil]; omega)
  rw [octetsInto, if_neg (by omega), if_neg (by simp), ok_bind]
  dsimp only
  rw [digits, ok_bind, List.length_nil, Nat.sub_zero,
    octetsInto_pointed Nat.toDigits_ne_nil (by omega)]
  rfl

theorem length_dotted (octet : UInt8) (octets : List UInt8) :
    (dotted (octet :: octets)).length ≤ 4 * octets.length + 3 := by
  have short := length_octet octet
  have rest := length_pointed octets
  rw [dotted, List.length_append]
  omega

theorem length_slashed {width bits : Nat} (small : bits < 1000) : (slashed width bits).length ≤ 4 := by
  have short := (@Nat.length_toDigits_le_iff 10 bits 3 (by decide) (by decide)).mpr small
  rw [slashed]
  split
  · rw [List.length_cons]
    omega
  · exact Nat.zero_le 4

theorem inetNetNtopIpv4_eq {src : List UInt8} {octet : UInt8} {octets : List UInt8}
    (four : src.take 4 = octet :: octets) {bits : Nat} (inside : bits ≤ 32) :
    inetNetNtopIpv4 src bits netTextSize =
      .ok (some (dotted (octet :: octets) ++ slashed 32 bits)) := by
  have size : netTextSize = 50 := rfl
  have wide : "/32".length + 1 = 4 := rfl
  have count := congrArg List.length four
  rw [List.length_take, List.length_cons] at count
  have short := length_dotted octet octets
  have prefixShort := @length_slashed 32 bits (by omega)
  rw [inetNetNtopIpv4, if_neg (by omega), four, octetsInto_dotted (by omega), ok_bind]
  dsimp only
  rw [slashed] at prefixShort ⊢
  by_cases full : bits = 32
  · rw [if_neg (not_not.mpr full), if_neg (not_not.mpr full), List.append_nil]
    rfl
  · rw [if_pos full] at prefixShort
    rw [if_pos full, if_pos full, if_neg (by omega), sprintf_fits (by omega)]
    rfl

end Printing

section Parsing

def stopAt : List Char → Char × Cursor
  | [] => ('\x00', none)
  | c :: rest => (c, some rest)

theorem ofDigitChars_step (c : Char) (digits : List Char) (tmp : Nat) :
    Nat.ofDigitChars 10 (c :: digits) tmp = Nat.ofDigitChars 10 digits (tmp * 10 + decimalDigit c) := by
  rw [Nat.ofDigitChars_cons, Nat.mul_comm]
  rfl

theorem le_ofDigitChars (digits : List Char) (tmp : Nat) :
    tmp ≤ Nat.ofDigitChars 10 digits tmp := by
  induction digits generalizing tmp with
  | nil => exact Nat.le_of_eq Nat.ofDigitChars_nil.symm
  | cons c digits ih =>
      rw [ofDigitChars_step]
      exact le_trans (by omega) (ih _)

theorem octetDigits_stops {tmp : Nat} {ch : Char} (small : tmp * 10 + decimalDigit ch ≤ 255)
    {rest : List Char} (stops : ∀ c ∈ rest.head?, c.isDigit = false) :
    octetDigits tmp ch rest = some (tmp * 10 + decimalDigit ch, stopAt rest) := by
  cases rest with
  | nil => exact if_neg (Nat.not_lt.mpr small)
  | cons c rest =>
      rw [octetDigits, if_neg (Nat.not_lt.mpr small), stops c rfl]
      rfl

theorem octetDigits_step {tmp : Nat} {ch : Char} (small : tmp * 10 + decimalDigit ch ≤ 255) {c : Char}
    (digit : c.isDigit = true) (rest : List Char) :
    octetDigits tmp ch (c :: rest) = octetDigits (tmp * 10 + decimalDigit ch) c rest := by
  rw [octetDigits, if_neg (Nat.not_lt.mpr small)]
  exact if_pos digit

theorem octetDigits_eq {digits rest : List Char} (plain : ∀ c ∈ digits, c.isDigit = true)
    (stops : ∀ c ∈ rest.head?, c.isDigit = false) {tmp : Nat} {ch : Char}
    (small : Nat.ofDigitChars 10 (ch :: digits) tmp ≤ 255) :
    octetDigits tmp ch (digits ++ rest) =
      some (Nat.ofDigitChars 10 (ch :: digits) tmp, stopAt rest) := by
  rw [ofDigitChars_step] at small ⊢
  have kept := (le_ofDigitChars digits _).trans small
  induction digits generalizing tmp ch with
  | nil =>
      rw [Nat.ofDigitChars_nil]
      exact octetDigits_stops kept stops
  | cons c digits ih =>
      obtain ⟨digit, others⟩ := List.forall_mem_cons.mp plain
      rw [ofDigitChars_step] at small ⊢
      rw [List.cons_append, octetDigits_step kept digit]
      exact ih others small ((le_ofDigitChars digits _).trans small)

theorem toDigits_starts (n : Nat) :
    ∃ ch digits, Nat.toDigits 10 n = ch :: digits ∧ ∀ c ∈ ch :: digits, c.isDigit = true := by
  obtain ⟨ch, digits, text⟩ := List.exists_cons_of_ne_nil (@Nat.toDigits_ne_nil n 10)
  refine ⟨ch, digits, text, ?_⟩
  rw [← text]
  exact fun _ => Nat.isDigit_of_mem_toDigits (by decide) (by decide)

theorem readOctet_eq {octet : UInt8} {ch : Char} {digits : List Char}
    (text : Nat.toDigits 10 octet.toNat = ch :: digits) (plain : ∀ c ∈ ch :: digits, c.isDigit = true)
    {rest : List Char} (stops : ∀ c ∈ rest.head?, c.isDigit = false) :
    readOctet ch (some (digits ++ rest)) = .ok (some (octet.toNat, stopAt rest)) := by
  have value : Nat.ofDigitChars 10 (ch :: digits) 0 = octet.toNat := by
    rw [← text, Nat.ofDigitChars_ten_toDigits]
  have small := Nat.lt_succ_iff.mp octet.toNat_lt
  rw [← value] at small
  rw [readOctet, octetDigits_eq (List.forall_mem_cons.mp plain).2 stops small, value]

theorem dotted_cons (octet : UInt8) (octets : List UInt8) :
    dotted (octet :: octets) = Nat.toDigits 10 octet.toNat ++ pointed octets := rfl

theorem dotted_singleton (octet : UInt8) : dotted [octet] = Nat.toDigits 10 octet.toNat :=
  List.append_nil _

theorem pointed_cons (octet : UInt8) (octets : List UInt8) :
    pointed (octet :: octets) = '.' :: dotted (octet :: octets) := rfl

theorem mantissa_step {size : Nat} {octet : UInt8} {rest : List Char}
    (stops : ∀ c ∈ rest.head?, c.isDigit = false) (dst : List UInt8) :
    mantissa (size + 1) (some (Nat.toDigits 10 octet.toNat ++ rest)) dst =
      (if (stopAt rest).1 = '\x00' ∨ (stopAt rest).1 = '/' then
        .ok (some ((stopAt rest).1, (stopAt rest).2, dst ++ [octet]))
      else if (stopAt rest).1 ≠ '.' then .ok none
      else mantissa size (stopAt rest).2 (dst ++ [octet])) := by
  obtain ⟨ch, digits, text, plain⟩ := toDigits_starts octet.toNat
  have digit : ch.isDigit = true := plain ch List.mem_cons_self
  rw [text, List.cons_append, mantissa, Cursor.next, ok_bind]
  dsimp only
  rw [if_neg (by rw [digit]; decide), readOctet_eq text plain stops, ok_bind]
  dsimp only
  rw [UInt8.ofNat_toNat]
  rfl

theorem mantissa_eq {octet : UInt8} {octets : List UInt8} {tail : List Char}
    (ends : ∀ c ∈ tail.head?, c = '/') {size : Nat} (room : octets.length < size) {dst : List UInt8} :
    mantissa size (some (dotted (octet :: octets) ++ tail)) dst =
      .ok (some ((stopAt tail).1, (stopAt tail).2, dst ++ octet :: octets)) := by
  induction octets generalizing octet size dst with
  | nil =>
      obtain ⟨size, rfl⟩ := Nat.exists_eq_succ_of_ne_zero (Nat.ne_of_gt room)
      rw [dotted_singleton]
      cases tail with
      | nil => exact mantissa_step (by simp) dst
      | cons c tail =>
          cases ends c rfl
          exact mantissa_step (by simp) dst
  | cons next octets ih =>
      obtain ⟨size, rfl⟩ := Nat.exists_eq_succ_of_ne_zero (Nat.ne_of_gt (Nat.zero_lt_of_lt room))
      rw [dotted_cons, pointed_cons, List.append_assoc]
      refine (mantissa_step (by simp) dst).trans ?_
      rw [List.cons_append]
      refine (ih (Nat.lt_of_succ_lt_succ room)).trans ?_
      rw [List.append_assoc]
      rfl

theorem dottedOctets_step {size : Nat} {octet : UInt8} {rest : List Char}
    (stops : ∀ c ∈ rest.head?, c.isDigit = false) {ch : Char} {src : List Char}
    (text : Nat.toDigits 10 octet.toNat ++ rest = ch :: src) (dst : List UInt8) :
    dottedOctets (size + 1) ch (some src) dst =
      (if (stopAt rest).1 = '\x00' ∨ (stopAt rest).1 = '/' then
        .ok (some ((stopAt rest).1, (stopAt rest).2, dst ++ [octet]))
      else if (stopAt rest).1 ≠ '.' then .ok none
      else do
        let (ch, src) ← (stopAt rest).2.next
        if !ch.isDigit then return none else dottedOctets size ch src (dst ++ [octet])) := by
  obtain ⟨first, digits, own, plain⟩ := toDigits_starts octet.toNat
  rw [own, List.cons_append] at text
  cases text
  rw [dottedOctets, readOctet_eq own plain stops, ok_bind]
  dsimp only
  rw [UInt8.ofNat_toNat]
  rfl

theorem dottedOctets_eq {octet : UInt8} {octets : List UInt8} {tail : List Char}
    (ends : ∀ c ∈ tail.head?, c = '/') {ch : Char} {src : List Char}
    (text : dotted (octet :: octets) ++ tail = ch :: src) {size : Nat} (room : octets.length < size)
    {dst : List UInt8} :
    dottedOctets size ch (some src) dst =
      .ok (some ((stopAt tail).1, (stopAt tail).2, dst ++ octet :: octets)) := by
  induction octets generalizing octet size dst ch src with
  | nil =>
      obtain ⟨size, rfl⟩ := Nat.exists_eq_succ_of_ne_zero (Nat.ne_of_gt room)
      rw [dotted_singleton] at text
      cases tail with
      | nil => exact dottedOctets_step (by simp) text dst
      | cons c tail =>
          cases ends c rfl
          exact dottedOctets_step (by simp) text dst
  | cons next octets ih =>
      obtain ⟨size, rfl⟩ := Nat.exists_eq_succ_of_ne_zero (Nat.ne_of_gt (Nat.zero_lt_of_lt room))
      rw [dotted_cons, pointed_cons, List.append_assoc] at text
      obtain ⟨first, digits, own, plain⟩ := toDigits_starts next.toNat
      have digit : first.isDigit = true := plain first List.mem_cons_self
      have rest : dotted (next :: octets) ++ tail = first :: (digits ++ pointed octets ++ tail) := by
        rw [dotted_cons, own]
        rfl
      refine (dottedOctets_step (by simp) text dst).trans ?_
      rw [List.cons_append, rest]
      change (if !first.isDigit then _ else dottedOctets size first _ _) = _
      rw [digit]
      refine (ih rest (Nat.lt_of_succ_lt_succ room)).trans ?_
      rw [List.append_assoc]
      rfl

theorem bitsDigits_eq {digits : List Char} (plain : ∀ c ∈ digits, c.isDigit = true) {bits : Nat}
    {ch : Char} (small : Nat.ofDigitChars 10 (ch :: digits) bits < 2 ^ 31) :
    bitsDigits bits ch digits = .ok (Nat.ofDigitChars 10 (ch :: digits) bits, '\x00') := by
  rw [ofDigitChars_step] at small ⊢
  have kept := (le_ofDigitChars digits _).trans_lt small
  induction digits generalizing bits ch with
  | nil =>
      rw [Nat.ofDigitChars_nil]
      exact if_neg (Nat.not_le.mpr kept)
  | cons c digits ih =>
      obtain ⟨digit, others⟩ := List.forall_mem_cons.mp plain
      rw [ofDigitChars_step] at small ⊢
      rw [bitsDigits, if_neg (Nat.not_le.mpr kept), if_pos digit]
      exact ih others small ((le_ofDigitChars digits _).trans_lt small)

theorem prefixLength_eq {bits : Nat} (inside : bits ≤ 32) {written : Nat} (begun : 0 < written) :
    prefixLength '/' (some (Nat.toDigits 10 bits)) written = .ok (some (some bits)) := by
  obtain ⟨ch, digits, text, plain⟩ := toDigits_starts bits
  have value : Nat.ofDigitChars 10 (ch :: digits) 0 = bits := by
    rw [← text, Nat.ofDigitChars_ten_toDigits]
  have small : Nat.ofDigitChars 10 (ch :: digits) 0 < 2 ^ 31 := by
    rw [value]
    omega
  have digit : ch.isDigit = true := plain ch List.mem_cons_self
  rw [prefixLength, if_pos rfl, text, Cursor.read, ok_bind, if_pos ⟨digit, begun⟩, Cursor.next, ok_bind]
  dsimp only
  rw [readBits, bitsDigits_eq (List.forall_mem_cons.mp plain).2 small, value, ok_bind]
  dsimp only
  rw [if_neg (not_not.mpr rfl), if_neg (Nat.not_lt.mpr inside)]
  rfl

theorem inetNetPtonIpv4_eq {octet : UInt8} {octets : List UInt8} (three : octets.length = 3)
    {bits : Nat} (inside : bits ≤ 32) :
    inetNetPtonIpv4 (dotted (octet :: octets) ++ slashed 32 bits) =
      .ok (some (bits, octet :: octets)) := by
  have four : (octet :: octets).length = 4 := by rw [List.length_cons, three]
  have fits : ¬bits / 8 > 4 := by omega
  by_cases full : bits = 32
  · have tail : slashed 32 bits = [] := if_neg (not_not.mpr full)
    have ended : prefixLength (stopAt []).1 (stopAt []).2 4 = .ok (some none) := rfl
    rw [inetNetPtonIpv4, tail, mantissa_eq (by simp) (by omega), ok_bind, List.nil_append]
    dsimp only
    rw [four, ended, ok_bind]
    dsimp only
    rw [if_pos ⟨rfl, rfl⟩]
    dsimp only
    rw [if_neg (by decide), if_neg (by decide), List.replicate_zero, List.append_nil, full]
    rfl
  · have tail : slashed 32 bits = '/' :: Nat.toDigits 10 bits := if_pos full
    rw [inetNetPtonIpv4, tail, mantissa_eq (by simp) (by omega), ok_bind, List.nil_append]
    dsimp only [stopAt]
    rw [four, prefixLength_eq inside (by decide), ok_bind]
    dsimp only
    rw [if_neg (fun missing => absurd missing.1 (Option.some_ne_none bits))]
    dsimp only
    rw [if_neg (by decide), if_neg fits, List.replicate_zero, List.append_nil]
    rfl

theorem startsHex_eq {src : List Char} (plain : ∀ c ∈ src, c ≠ 'x' ∧ c ≠ 'X') (ch : Char) :
    startsHex ch (some src) = .ok false := by
  rw [startsHex]
  split
  · cases src with
    | nil => rfl
    | cons mark src =>
        obtain ⟨small, large⟩ := plain mark List.mem_cons_self
        rw [Cursor.next, ok_bind]
        exact if_neg (not_or.mpr ⟨small, large⟩)
  · rfl

theorem isDigit_toDigits {n : Nat} {c : Char} (member : c ∈ Nat.toDigits 10 n) : c.isDigit = true :=
  Nat.isDigit_of_mem_toDigits (by decide) (by decide) member

theorem mem_dotted {octets : List UInt8} {c : Char} (member : c ∈ dotted octets) :
    c.isDigit = true ∨ c = '.' := by
  induction octets with
  | nil => exact absurd member List.not_mem_nil
  | cons octet octets ih =>
      rw [dotted_cons] at member
      rcases List.mem_append.mp member with own | later
      · exact Or.inl (isDigit_toDigits own)
      · cases octets with
        | nil => exact absurd later List.not_mem_nil
        | cons next octets =>
            rw [pointed_cons] at later
            rcases List.mem_cons.mp later with point | rest
            · exact Or.inr point
            · exact ih rest

theorem inetCidrPtonIpv4_eq {octet : UInt8} {octets : List UInt8} (three : octets.length = 3)
    {bits : Nat} (inside : bits ≤ 32) :
    inetCidrPtonIpv4 (dotted (octet :: octets) ++ '/' :: Nat.toDigits 10 bits) 4 =
      .ok (some (bits, octet :: octets)) := by
  obtain ⟨ch, digits, own, plain⟩ := toDigits_starts octet.toNat
  have digit : ch.isDigit = true := plain ch List.mem_cons_self
  have text : dotted (octet :: octets) ++ '/' :: Nat.toDigits 10 bits =
      ch :: (digits ++ pointed octets ++ '/' :: Nat.toDigits 10 bits) := by
    rw [dotted_cons, own]
    rfl
  have decimal : ∀ c ∈ digits ++ pointed octets ++ '/' :: Nat.toDigits 10 bits, c ≠ 'x' ∧ c ≠ 'X' := by
    intro c member
    have whole : c ∈ dotted (octet :: octets) ++ '/' :: Nat.toDigits 10 bits := by
      rw [text]
      exact List.mem_cons_of_mem ch member
    rcases List.mem_append.mp whole with front | back
    · rcases mem_dotted front with number | point
      · constructor <;> rintro rfl <;> exact absurd number (by decide)
      · rw [point]
        decide
    · rcases List.mem_cons.mp back with slash | number
      · rw [slash]
        decide
      · constructor <;> rintro rfl <;> exact absurd (isDigit_toDigits number) (by decide)
  have four : (octet :: octets).length = 4 := by rw [List.length_cons, three]
  have complete : (bits + 7) / 8 - 4 = 0 := by omega
  have octetsRead : networkOctets (ch :: (digits ++ pointed octets ++ '/' :: Nat.toDigits 10 bits)) 4 =
      .ok (some ('/', some (Nat.toDigits 10 bits), octet :: octets)) := by
    rw [networkOctets, Cursor.next, ok_bind]
    dsimp only
    rw [startsHex_eq decimal, ok_bind, if_neg Bool.false_ne_true, if_pos digit,
      dottedOctets_eq (by simp) text (by omega), List.nil_append]
    rfl
  rw [inetCidrPtonIpv4, text, octetsRead, ok_bind]
  dsimp only
  rw [four, prefixLength_eq inside (by decide), ok_bind]
  dsimp only
  rw [if_neg (List.cons_ne_nil octet octets), Option.getD_some, complete, if_neg (by omega),
    List.replicate_zero, List.append_nil]
  rfl

end Parsing

section RoundTrip

theorem snprintf_fits {printed text : List Char} {size : Nat} (room : printed.length + text.length < size) :
    snprintf printed (size - printed.length) text = printed ++ text := by
  rw [snprintf, List.take_of_length_le (by omega)]

theorem inetText_ipv4 {address : NetAddress} (ipv4 : address.family = .inet)
    (inside : address.bits.toNat ≤ 32) {octet : UInt8} {octets : List UInt8}
    (four : address.ipaddr.take 4 = octet :: octets) :
    inetText address = .ok (dotted (octet :: octets) ++ slashed 32 address.bits.toNat) := by
  rw [inetText, inetNetNtop, if_pos ipv4, inetNetNtopIpv4_eq four inside]
  rfl

theorem cidrText_ipv4 {address : NetAddress} (ipv4 : address.family = .inet)
    (inside : address.bits.toNat ≤ 32) {octet : UInt8} {octets : List UInt8}
    (four : address.ipaddr.take 4 = octet :: octets) :
    cidrText address = .ok (dotted (octet :: octets) ++ '/' :: Nat.toDigits 10 address.bits.toNat) := by
  have size : netTextSize = 50 := rfl
  have count := congrArg List.length four
  rw [List.length_take, List.length_cons] at count
  have short := length_dotted octet octets
  have digits := (@Nat.length_toDigits_le_iff 10 address.bits.toNat 2 (by decide) (by decide)).mpr (by omega)
  rw [cidrText, inetText_ipv4 ipv4 inside four, ok_bind]
  by_cases full : address.bits.toNat = 32
  · have tail : slashed 32 address.bits.toNat = [] := if_neg (not_not.mpr full)
    have missing : '/' ∉ dotted (octet :: octets) := by
      intro member
      rcases mem_dotted member with digit | point
      · exact absurd digit (by decide)
      · exact absurd point (by decide)
    rw [tail, List.append_nil, if_neg missing, snprintf_fits (by rw [List.length_cons]; omega)]
    rfl
  · have tail : slashed 32 address.bits.toNat = '/' :: Nat.toDigits 10 address.bits.toNat := if_pos full
    rw [tail, if_pos (List.mem_append_right _ List.mem_cons_self)]
    rfl

theorem colon_not_mem {octets : List UInt8} {tail : List Char} {bits : Nat}
    (ends : ∀ c ∈ tail, c = '/' ∨ c ∈ Nat.toDigits 10 bits) : ':' ∉ dotted octets ++ tail := by
  intro member
  rcases List.mem_append.mp member with front | back
  · rcases mem_dotted front with digit | point
    · exact absurd digit (by decide)
    · exact absurd point (by decide)
  · rcases ends _ back with slash | digit
    · exact absurd slash (by decide)
    · exact absurd (isDigit_toDigits digit) (by decide)

theorem storeAddress_ipv4 {bits : UInt8} (inside : bits.toNat ≤ 32) {octets : List UInt8}
    (four : octets.length = 4) (type : String) :
    storeAddress .inet type (some (bits.toNat, octets)) =
      .ok { family := .inet, bits, ipaddr := octets ++ List.replicate 12 0 } := by
  have narrow : ¬bits.toNat > if pgsqlAfInet ≠ 0 then 32 else 128 := Nat.not_lt.mpr inside
  rw [storeAddress, UInt8.ofNat_toNat, if_neg narrow, four]

theorem octets_of {address : NetAddress} (field : address.ipaddr.length = 16) :
    ∃ octet octets, address.ipaddr.take 4 = octet :: octets ∧ octets.length = 3 := by
  match address.ipaddr, field with
  | octet :: ipaddr, field =>
      refine ⟨octet, ipaddr.take 3, rfl, ?_⟩
      rw [List.length_cons] at field
      rw [List.length_take]
      omega

theorem sameNetwork_ipv4 {address : NetAddress} (ipv4 : address.family = .inet)
    (inside : address.bits.toNat ≤ 32) {octet : UInt8} {octets : List UInt8}
    (four : address.ipaddr.take 4 = octet :: octets) (three : octets.length = 3) :
    SameNetwork address
      { family := .inet, bits := address.bits, ipaddr := octet :: octets ++ List.replicate 12 0 } := by
  have width : familyWidth address.family = 32 := if_pos ipv4
  rw [← ipv4]
  refine sameNetwork_of (inside.trans_eq width.symm) rfl ?_
  rw [width, four]
  exact List.take_left' (by rw [List.length_cons, three])

theorem inet_ipv4_returns {address : NetAddress} (ipv4 : address.family = .inet)
    (field : address.ipaddr.length = 16) (inside : address.bits.toNat ≤ 32) :
    ∃ text read, inetText address = .ok text ∧ text.length < netTextSize ∧
      inetOfText text = .ok read ∧ SameNetwork address read := by
  obtain ⟨octet, octets, four, three⟩ := octets_of field
  have short := length_dotted octet octets
  have shortPrefix := @length_slashed 32 address.bits.toNat (by omega)
  have size : netTextSize = 50 := rfl
  refine ⟨_, _, inetText_ipv4 ipv4 inside four, ?_, ?_, sameNetwork_ipv4 ipv4 inside four three⟩
  · rw [List.length_append]
    omega
  · have plain : ':' ∉ dotted (octet :: octets) ++ slashed 32 address.bits.toNat := by
      apply @colon_not_mem _ _ address.bits.toNat
      intro c member
      rw [slashed] at member
      split at member
      · exact List.mem_cons.mp member
      · exact absurd member List.not_mem_nil
    rw [inetOfText, if_neg plain, inetNetPtonIpv4_eq three inside, ok_bind]
    exact storeAddress_ipv4 inside (by rw [List.length_cons, three]) "inet"

theorem cidr_ipv4_returns {address : NetAddress} (ipv4 : address.family = .inet)
    (field : address.ipaddr.length = 16) (inside : address.bits.toNat ≤ 32)
    (clear : ClearBehind address.ipaddr address.bits.toNat 32) :
    ∃ text read, cidrText address = .ok text ∧ text.length < netTextSize ∧
      cidrOfText text = .ok read ∧ SameNetwork address read := by
  obtain ⟨octet, octets, four, three⟩ := octets_of field
  have short := length_dotted octet octets
  have digits := (@Nat.length_toDigits_le_iff 10 address.bits.toNat 2 (by decide) (by decide)).mpr (by omega)
  have size : netTextSize = 50 := rfl
  refine ⟨_, _, cidrText_ipv4 ipv4 inside four, ?_, ?_, sameNetwork_ipv4 ipv4 inside four three⟩
  · rw [List.length_append, List.length_cons]
    omega
  · have plain := @colon_not_mem (octet :: octets) _ address.bits.toNat fun _ => List.mem_cons.mp
    have accepted : addressOk (octet :: octets ++ List.replicate 12 0) address.bits.toNat .inet = true := by
      apply (addressOk_iff inside).mpr
      apply clearBehind_congr _ rfl clear
      change List.take 4 _ = address.ipaddr.take 4
      rw [four]
      exact List.take_left' (by rw [List.length_cons, three])
    rw [cidrOfText, if_neg plain, inetCidrPtonIpv4_eq three inside, ok_bind,
      storeAddress_ipv4 inside (by rw [List.length_cons, three]) "cidr", ok_bind]
    exact if_pos accepted

theorem inetText_wide {address : NetAddress} (ipv4 : address.family = .inet)
    (wide : address.bits.toNat > 32) :
    inetText address = .error (.exception "could not format inet value") := by
  rw [inetText, inetNetNtop, if_pos ipv4, inetNetNtopIpv4, if_pos wide]
  rfl

theorem texts_fit {address : NetAddress} (ipv4 : address.family = .inet)
    (field : address.ipaddr.length = 16) :
    inetText address ≠ .error .outOfBounds ∧ cidrText address ≠ .error .outOfBounds := by
  by_cases inside : address.bits.toNat ≤ 32
  · obtain ⟨octet, octets, four, -⟩ := octets_of field
    rw [inetText_ipv4 ipv4 inside four, cidrText_ipv4 ipv4 inside four]
    exact ⟨nofun, nofun⟩
  · have refused := inetText_wide ipv4 (Nat.lt_of_not_le inside)
    rw [cidrText, refused]
    exact ⟨nofun, nofun⟩

/-- Every IPv4 address and every IPv4 network comes back from its text, which fits the buffer; the
parsers stay within every text. -/
theorem ipv4_text_returns :
    (∀ address : NetAddress, address.family = .inet → address.ipaddr.length = 16 →
      (inetText address ≠ .error .outOfBounds ∧ cidrText address ≠ .error .outOfBounds) ∧
      (address.bits.toNat ≤ 32 →
        (∃ text read, inetText address = .ok text ∧ text.length < netTextSize ∧
          inetOfText text = .ok read ∧ SameNetwork address read) ∧
        (ClearBehind address.ipaddr address.bits.toNat 32 →
          ∃ text read, cidrText address = .ok text ∧ text.length < netTextSize ∧
            cidrOfText text = .ok read ∧ SameNetwork address read))) ∧
    ∀ src, inetNetPtonIpv4 src ≠ .error .outOfBounds ∧
      ∀ size, inetCidrPtonIpv4 src size ≠ .error .outOfBounds := by
  constructor
  · intro address ipv4 field
    refine ⟨texts_fit ipv4 field, fun inside => ⟨inet_ipv4_returns ipv4 field inside, ?_⟩⟩
    exact cidr_ipv4_returns ipv4 field inside
  · intro src
    exact ⟨(inetNetPtonIpv4_avoids src).ne, fun size => (inetCidrPtonIpv4_avoids src size).ne⟩

theorem ipv4_text_returns_network :
    ∃ text read,
      cidrText { family := .inet, bits := 9, ipaddr := [10, 128] ++ List.replicate 14 0 } = .ok text ∧
        text.length < netTextSize ∧ cidrOfText text = .ok read ∧
        SameNetwork { family := .inet, bits := 9, ipaddr := [10, 128] ++ List.replicate 14 0 } read :=
  ((ipv4_text_returns.1 _ rfl rfl).2 (by decide)).2 (by unfold ClearBehind; decide)

end RoundTrip

end PqAsync
