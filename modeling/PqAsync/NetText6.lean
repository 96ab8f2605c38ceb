import Mathlib.Data.List.Induction
import Mathlib.Tactic.IntervalCases
import PqAsync.NetForm6

/-!
IPv6 addresses as texts and back. Every text an address is printed as is read as the same bytes and
the same prefix length; the constructors then refuse the lengths that IPv4 does not have.
-/

namespace PqAsync

open Results

section Digits

theorem hexDigit_decimal {c : Char} (digit : c.isDigit = true) : ∃ n, hexDigit? c = some n := by
  have within : '0' ≤ c ∧ c ≤ '9' := by simpa [Char.isDigit, Char.le_def] using digit
  exact ⟨_, if_pos within⟩

theorem scan6_digit {ch : Char} {n : Nat} (digit : hexDigit? ch = some n) {s : Scan6}
    (room : s.digits + 1 ≤ 4) (src : List Char) :
    scan6 (ch :: src) s =
      scan6 src { s with val := s.val <<< 4 ||| n, digits := s.digits + 1, sawXdigit := true } := by
  rw [scan6, digit]
  exact if_neg (Nat.not_lt.mpr room)

theorem hexDigit_word {word : Nat} {c : Char} (member : c ∈ Nat.toDigits 16 word) :
    ∃ n, hexDigit? c = some n := by
  induction word using Nat.strongRecOn with
  | ind word ih =>
      by_cases single : word < 16
      · rw [Nat.toDigits_of_lt_base single, List.mem_singleton] at member
        exact ⟨word, by rw [member, hexDigit_digitChar single]⟩
      · rw [Nat.toDigits_of_base_le (by decide) (Nat.le_of_not_lt single)] at member
        rcases List.mem_append.mp member with front | last
        · exact ih (word / 16) (by omega) front
        · rw [List.mem_singleton] at last
          exact ⟨word % 16, by rw [last, hexDigit_digitChar (Nat.mod_lt word (by decide))]⟩

theorem scan6_word {word : Nat} (short : (Nat.toDigits 16 word).length ≤ 4) {s : Scan6}
    (val : s.val = 0) (digits : s.digits = 0) (rest : List Char) :
    scan6 (Nat.toDigits 16 word ++ rest) s = scan6 rest
      { s with val := word, digits := (Nat.toDigits 16 word).length, sawXdigit := true } := by
  induction word using Nat.strongRecOn generalizing rest with
  | ind word ih =>
      by_cases single : word < 16
      · rw [Nat.toDigits_of_lt_base single, List.singleton_append,
          scan6_digit (hexDigit_digitChar single) (by omega), val, digits, Nat.zero_shiftLeft,
          Nat.zero_or]
        rfl
      · have last : word % 16 < 2 ^ 4 := Nat.mod_lt word (by decide)
        have value : (word / 16) <<< 4 ||| word % 16 = word := by
          rw [← Nat.shiftLeft_add_eq_or_of_lt last, Nat.shiftLeft_eq]
          omega
        rw [Nat.toDigits_of_base_le (by decide) (Nat.le_of_not_lt single), List.length_append,
          List.length_singleton] at short ⊢
        rw [List.append_assoc, ih (word / 16) (by omega) (by omega), List.singleton_append,
          scan6_digit (hexDigit_digitChar last) short]
        dsimp only
        rw [value]

theorem scan6_decimal {digits rest : List Char} (plain : ∀ c ∈ digits, c.isDigit = true)
    (begun : digits ≠ []) {s : Scan6} (room : s.digits + digits.length ≤ 4) :
    ∃ val count, scan6 (digits ++ rest) s =
      scan6 rest { s with val, digits := count, sawXdigit := true } := by
  induction digits generalizing s with
  | nil => exact absurd rfl begun
  | cons c digits ih =>
      obtain ⟨digit, others⟩ := List.forall_mem_cons.mp plain
      obtain ⟨n, value⟩ := hexDigit_decimal digit
      rw [List.length_cons] at room
      rw [List.cons_append, scan6_digit value (by omega)]
      cases digits with
      | nil => exact ⟨_, _, rfl⟩
      | cons next digits => exact ih others (List.cons_ne_nil next digits) (by simp only; omega)

theorem scan6_octet (octet : UInt8) (rest : List Char) {s : Scan6} (fresh : s.digits = 0) :
    ∃ val count, scan6 (Nat.toDigits 10 octet.toNat ++ rest) s =
      scan6 rest { s with val, digits := count, sawXdigit := true } := by
  have short := length_octet octet
  exact scan6_decimal (fun _ => isDigit_toDigits) Nat.toDigits_ne_nil (by omega)

end Digits

section Decimals

theorem getbits_digit {n val : Nat} (plain : n = 0 ∨ val ≠ 0) {c : Char} (digit : c.isDigit = true)
    (small : val * 10 + decimalDigit c ≤ 128) (rest : List Char) :
    getbits (c :: rest) n val = getbits rest (n + 1) (val * 10 + decimalDigit c) := by
  have leading : ¬(n ≠ 0 ∧ val = 0) := by tauto
  rw [getbits, if_pos digit, if_neg leading, if_neg (Nat.not_lt.mpr small)]

theorem getv4_digit {n val : Nat} (plain : n = 0 ∨ val ≠ 0) {c : Char} (digit : c.isDigit = true)
    (small : val * 10 + decimalDigit c ≤ 255) (rest : List Char) (dst : List UInt8) :
    getv4 (c :: rest) n val dst = getv4 rest (n + 1) (val * 10 + decimalDigit c) dst := by
  have leading : ¬(n ≠ 0 ∧ val = 0) := by tauto
  rw [getv4, if_pos digit, if_neg leading, if_neg (Nat.not_lt.mpr small)]

theorem decimalDigit_digitChar {d : Nat} (small : d < 10) : decimalDigit (Nat.digitChar d) = d := by
  interval_cases d <;> rfl

theorem isDigit_digitChar {d : Nat} (small : d < 10) : (Nat.digitChar d).isDigit = true := by
  interval_cases d <;> rfl

/-- A loop over digits that refuses zeros in front and numbers above `limit` reads a printed number. -/
theorem read_number {α : Type} {limit : Nat} {loop : List Char → Nat → Nat → α}
    (step : ∀ {n val : Nat}, n = 0 ∨ val ≠ 0 → ∀ {c : Char}, c.isDigit = true →
      val * 10 + decimalDigit c ≤ limit → ∀ rest,
        loop (c :: rest) n val = loop rest (n + 1) (val * 10 + decimalDigit c))
    {number : Nat} (small : number ≤ limit) (rest : List Char) :
    ∃ n ≠ 0, loop (Nat.toDigits 10 number ++ rest) 0 0 = loop rest n number := by
  induction number using Nat.strongRecOn generalizing rest with
  | ind number ih =>
      by_cases single : number < 10
      · have value := decimalDigit_digitChar single
        refine ⟨1, Nat.one_ne_zero, ?_⟩
        rw [Nat.toDigits_of_lt_base single, List.singleton_append,
          step (Or.inl rfl) (isDigit_digitChar single) (by omega), value, Nat.zero_mul, Nat.zero_add,
          Nat.zero_add]
      · have last : number % 10 < 10 := Nat.mod_lt number (by decide)
        have value := decimalDigit_digitChar last
        have whole : number / 10 * 10 + number % 10 = number := Nat.div_add_mod' number 10
        obtain ⟨n, -, front⟩ := ih (number / 10) (by omega) (by omega)
          (Nat.digitChar (number % 10) :: rest)
        refine ⟨n + 1, Nat.succ_ne_zero n, ?_⟩
        rw [Nat.toDigits_of_base_le (by decide) (Nat.le_of_not_lt single), List.append_assoc,
          List.singleton_append, front,
          step (Or.inr (by omega)) (isDigit_digitChar last) (by omega), value, whole]

theorem getbits_eq {bits : Nat} (inside : bits ≤ 128) :
    getbits (Nat.toDigits 10 bits) 0 0 = some bits := by
  obtain ⟨n, begun, read⟩ := read_number getbits_digit inside []
  rw [List.append_nil] at read
  rw [read, getbits]
  exact if_neg begun

end Decimals

section Scanning

inductive Suffix : List Char → Option Nat → Prop
  | none : Suffix [] none
  | slash {bits : Nat} (inside : bits ≤ 128) : Suffix ('/' :: Nat.toDigits 10 bits) (some bits)

theorem scan6_suffix {tail : List Char} {bits : Option Nat} (suffix : Suffix tail bits) (s : Scan6)
    (unset : s.bits = none) : scan6 tail s = some { s with bits } := by
  cases suffix with
  | none =>
      rw [scan6, ← unset]
  | slash inside =>
      have mark : hexDigit? '/' = none := rfl
      rw [scan6, mark]
      dsimp only
      rw [if_neg (by decide), if_neg (by simp), if_pos rfl, getbits_eq inside]
      rfl

theorem getv4_octet (octet : UInt8) (rest : List Char) (dst : List UInt8) :
    ∃ n ≠ 0, getv4 (Nat.toDigits 10 octet.toNat ++ rest) 0 0 dst = getv4 rest n octet.toNat dst :=
  @read_number _ 255 (fun src n val => getv4 src n val dst)
    (fun plain _ digit small rest => getv4_digit plain digit small rest dst)
    octet.toNat (Nat.lt_succ_iff.mp octet.toNat_lt) rest

theorem getv4_dotted {octet : UInt8} {octets : List UInt8} {tail : List Char} {bits : Option Nat}
    (suffix : Suffix tail bits) {dst : List UInt8} (room : dst.length + octets.length ≤ 3) :
    getv4 (dotted (octet :: octets) ++ tail) 0 0 dst = some (dst ++ octet :: octets, bits) := by
  induction octets generalizing octet dst with
  | nil =>
      obtain ⟨n, begun, read⟩ := getv4_octet octet tail dst
      have fits : ¬dst.length > 3 := Nat.not_lt.mpr room
      rw [dotted_singleton, read]
      cases suffix with
      | none => rw [getv4, if_neg begun, if_neg fits, UInt8.ofNat_toNat]
      | slash inside =>
          rw [getv4, if_neg (by decide), if_pos (Or.inr rfl), if_neg fits]
          dsimp only
          rw [if_pos rfl, getbits_eq inside, UInt8.ofNat_toNat]
          rfl
  | cons next octets ih =>
      obtain ⟨n, begun, read⟩ := getv4_octet octet (pointed (next :: octets) ++ tail) dst
      rw [List.length_cons] at room
      rw [dotted_cons, List.append_assoc, read, pointed_cons, List.cons_append, getv4,
        if_neg (by decide), if_pos (Or.inl rfl), if_neg (by omega)]
      dsimp only
      rw [if_neg (by decide), ih (by rw [List.length_append, List.length_singleton]; omega),
        UInt8.ofNat_toNat, List.append_assoc]
      rfl

/-- From this state the text is read to its end, and these bytes are stored. -/
def Reads (text : List Char) (s : Scan6) (tmp : List UInt8) (colonp bits : Option Nat) : Prop :=
  ∃ last, scan6 text s = some last ∧ last.stored = some tmp ∧ last.colonp = colonp ∧ last.bits = bits

variable {tmp stored : List UInt8} {colonp gap bits : Option Nat} {curtok tail : List Char}

theorem reads_colon {word : Nat} (small : word < 2 ^ 16) {rest : List Char} (more : rest ≠ [])
    (room : tmp.length + 2 ≤ 16)
    (later : Reads rest { tmp := tmp ++ wordBytes word, colonp, curtok := rest } stored gap bits) :
    Reads (Nat.toDigits 16 word ++ ':' :: rest) { tmp, colonp, curtok } stored gap bits := by
  obtain ⟨last, read, ends⟩ := later
  refine ⟨last, ?_, ends⟩
  have mark : hexDigit? ':' = none := rfl
  rw [scan6_word (length_word small) rfl rfl, scan6, mark]
  dsimp only
  rw [if_pos rfl, if_neg (by decide), if_neg more, if_neg (Nat.not_lt.mpr room)]
  exact read

theorem reads_gap {rest : List Char}
    (later : Reads rest { tmp, colonp := some tmp.length, curtok := rest } stored gap bits) :
    Reads (':' :: rest) { tmp, curtok } stored gap bits := by
  obtain ⟨last, read, ends⟩ := later
  refine ⟨last, ?_, ends⟩
  have mark : hexDigit? ':' = none := rfl
  rw [scan6, mark]
  dsimp only
  rw [if_pos rfl, if_pos (by decide), if_neg (by simp)]
  exact read

theorem reads_words {words : List Nat} (small : ∀ word ∈ words, word < 2 ^ 16) (begun : words ≠ [])
    {rest : List Char} (more : rest ≠ []) (room : tmp.length + 2 * words.length ≤ 16)
    (later : Reads rest { tmp := tmp ++ bytesOf words, colonp, curtok := rest } stored gap bits) :
    Reads (joined words ++ ':' :: rest) { tmp, colonp, curtok } stored gap bits := by
  induction words generalizing tmp curtok with
  | nil => exact absurd rfl begun
  | cons word words ih =>
      obtain ⟨own, others⟩ := List.forall_mem_cons.mp small
      rw [List.length_cons] at room
      rw [joined, List.append_assoc]
      cases words with
      | nil => exact reads_colon own more (by omega) later
      | cons next words =>
          rw [coloned_cons, List.cons_append]
          refine reads_colon own (List.append_ne_nil_of_right_ne_nil _ (List.cons_ne_nil _ _)) (by omega) ?_
          apply ih others (List.cons_ne_nil next words)
          · rw [List.length_append]
            change tmp.length + 2 + _ ≤ 16
            omega
          · rw [List.append_assoc]
            exact later

theorem reads_joined {words : List Nat} (small : ∀ word ∈ words, word < 2 ^ 16)
    (suffix : Suffix tail bits) (room : tmp.length + 2 * words.length ≤ 16) :
    Reads (joined words ++ tail) { tmp, colonp, curtok } (tmp ++ bytesOf words) colonp bits := by
  induction words generalizing tmp curtok with
  | nil =>
      refine ⟨_, scan6_suffix suffix _ rfl, ?_, rfl, rfl⟩
      rw [bytesOf, List.flatMap_nil, List.append_nil]
      rfl
  | cons word words ih =>
      obtain ⟨own, others⟩ := List.forall_mem_cons.mp small
      rw [List.length_cons] at room
      rw [joined, List.append_assoc]
      cases words with
      | nil =>
          have read := @scan6_word word (length_word own) { tmp, colonp, curtok } rfl rfl tail
          refine ⟨_, read.trans (scan6_suffix suffix _ rfl), ?_, rfl, rfl⟩
          rw [Scan6.stored, if_pos rfl]
          exact if_neg (by simp only; omega)
      | cons next words =>
          rw [coloned_cons, List.cons_append]
          have later := @ih (tmp ++ wordBytes word) (joined (next :: words) ++ tail) others (by
            rw [List.length_append]
            change tmp.length + 2 + _ ≤ 16
            omega)
          rw [List.append_assoc] at later
          refine reads_colon own ?_ (by omega) later
          exact List.append_ne_nil_of_left_ne_nil (List.append_ne_nil_of_left_ne_nil Nat.toDigits_ne_nil _) _

theorem reads_ipv4 {octet : UInt8} {octets : List UInt8} (three : octets.length = 3)
    (suffix : Suffix tail bits) (room : tmp.length + 4 ≤ 16) :
    Reads (dotted (octet :: octets) ++ tail)
      { tmp, colonp, curtok := dotted (octet :: octets) ++ tail } (tmp ++ octet :: octets) colonp bits := by
  match octets, three with
  | next :: others, three =>
      have mark : hexDigit? '.' = none := rfl
      have address := @getv4_dotted octet (next :: others) tail bits suffix []
        ((Nat.zero_add _).trans_le (Nat.le_of_eq three))
      have text : dotted (octet :: next :: others) ++ tail =
          Nat.toDigits 10 octet.toNat ++ '.' :: (dotted (next :: others) ++ tail) := by
        rw [dotted_cons, List.append_assoc, pointed_cons]
        rfl
      have whole : octet :: next :: others ++ List.replicate (4 - (octet :: next :: others).length) 0 =
          octet :: next :: others := by
        rw [List.length_cons, three]
        exact List.append_nil _
      rw [text, List.nil_append] at address
      rw [text]
      generalize dotted (next :: others) ++ tail = more at address ⊢
      obtain ⟨val, count, read⟩ := @scan6_octet octet ('.' :: more)
        { tmp, colonp, curtok := Nat.toDigits 10 octet.toNat ++ '.' :: more } rfl
      let curtok := Nat.toDigits 10 octet.toNat ++ '.' :: more
      refine ⟨{ tmp := tmp ++ octet :: next :: others, colonp, curtok, val, digits := count, bits },
        ?_, rfl, rfl, rfl⟩
      rw [read, scan6, mark]
      dsimp only
      rw [if_neg (by decide), if_pos ⟨rfl, room⟩, address]
      dsimp only
      rw [whole, Option.or_none]

end Scanning

section Shifting

theorem set_append (front : List UInt8) (own new : UInt8) (after : List UInt8) :
    (front ++ own :: after).set front.length new = front ++ new :: after := by
  rw [List.set_append_right _ _ (Nat.le_refl _), Nat.sub_self]
  rfl

theorem shiftTail_eq {front : List UInt8} {zeros : Nat} (gap : 0 < zeros)
    {left shifted : List UInt8} (full : front.length + left.length + zeros + shifted.length = 16) :
    shiftTail (front.length + left.length + shifted.length) left.length shifted.length
        (front ++ left ++ List.replicate zeros 0 ++ shifted) =
      front ++ List.replicate zeros 0 ++ left ++ shifted := by
  induction left using List.reverseRecOn generalizing shifted with
  | nil =>
      rw [shiftTail.eq_def]
      simp only [List.append_nil, List.length_nil]
  | append_singleton left byte ih =>
      obtain ⟨rest, rfl⟩ := Nat.exists_eq_succ_of_ne_zero (Nat.ne_of_gt gap)
      rw [List.length_append, List.length_singleton] at full ⊢
      have cell : 16 - (shifted.length + 1) = (front ++ left ++ byte :: List.replicate rest 0).length := by
        simp only [List.length_append, List.length_cons, List.length_replicate]
        omega
      have source : front.length + (left.length + 1) + shifted.length - (shifted.length + 1) =
          (front ++ left).length := by
        rw [List.length_append]
        omega
      have cells : front ++ (left ++ [byte]) ++ List.replicate (rest + 1) 0 ++ shifted =
          front ++ left ++ byte :: List.replicate rest 0 ++ 0 :: shifted := by
        simp only [List.replicate_succ', List.append_assoc, List.cons_append, List.nil_append]
      have read : (front ++ left ++ byte :: List.replicate rest 0 ++ 0 :: shifted).getD
          (front ++ left).length 0 = byte := by
        rw [List.append_assoc, List.getD_append_right _ _ _ _ (Nat.le_refl _), Nat.sub_self]
        rfl
      have moved : front ++ left ++ 0 :: (List.replicate rest 0 ++ byte :: shifted) =
          front ++ left ++ List.replicate (rest + 1) 0 ++ byte :: shifted := by
        simp only [List.replicate_succ, List.append_assoc, List.cons_append]
      have count : front.length + (left.length + 1) + shifted.length =
          front.length + left.length + (byte :: shifted).length := by
        rw [List.length_cons]
        omega
      rw [shiftTail, cell, source, cells, read, set_append, List.append_assoc, List.cons_append,
        set_append, moved, count, ← List.length_cons, ih (by rw [List.length_cons]; omega),
        List.append_cons, List.append_assoc _ left]

theorem expanded_gap {front after : List UInt8} {zeros : Nat} (gap : 0 < zeros)
    (full : front.length + zeros + after.length = 16) :
    expanded (front ++ after) (some front.length) =
      some (front ++ (List.replicate zeros 0 ++ after)) := by
  have count : (front ++ after).length = front.length + after.length := List.length_append
  have short : ¬front.length + after.length = 16 := by omega
  have missing : 16 - (front.length + after.length) = zeros := by omega
  have shifted := @shiftTail_eq front zeros gap after [] (by rw [List.length_nil]; omega)
  rw [expanded, count, if_neg short, missing, Nat.add_sub_cancel_left]
  simp only [List.append_nil, List.length_nil, Nat.add_zero, List.append_assoc] at shifted
  rw [List.append_assoc, shifted]

end Shifting

section RoundTrip

theorem inetCidrPtonIpv6_eq {text src : List Char} (leading : leadingColon text = some src)
    {tmp address : List UInt8} {colonp bits : Option Nat}
    (reads : Reads src { curtok := src } tmp colonp bits) (whole : expanded tmp colonp = some address) :
    inetCidrPtonIpv6 text 16 = some (bits.getD 128, address) := by
  obtain ⟨last, read, stored, rfl, rfl⟩ := reads
  rw [inetCidrPtonIpv6, if_neg (by decide), leading]
  dsimp only [bind, Option.bind]
  rw [read]
  dsimp only
  rw [stored]
  dsimp only
  rw [whole]
  rfl

theorem leadingColon_joined {words : List Nat} (begun : words ≠ []) (rest : List Char) :
    leadingColon (joined words ++ rest) = some (joined words ++ rest) := by
  obtain ⟨word, words, rfl⟩ := List.exists_cons_of_ne_nil begun
  obtain ⟨c, digits, text⟩ := List.exists_cons_of_ne_nil (@Nat.toDigits_ne_nil word 16)
  obtain ⟨n, digit⟩ := hexDigit_word (text ▸ List.mem_cons_self : c ∈ Nat.toDigits 16 word)
  have plain : c ≠ ':' := by
    rintro rfl
    exact Option.some_ne_none n (digit.symm.trans rfl)
  rw [joined, text, List.cons_append, List.cons_append, leadingColon.eq_def]
  split
  · next same => exact absurd (List.cons.inj same).1 plain
  · rfl

theorem Shows.parses {src : List UInt8} {text : List Char} (own : Shows src text) {tail : List Char}
    {bits : Option Nat} (suffix : Suffix tail bits) :
    inetCidrPtonIpv6 (text ++ tail) 16 = some (bits.getD 128, src) := by
  cases own with
  | whole words small eight bytes =>
      have begun : words ≠ [] := List.ne_nil_of_length_pos (by omega)
      have count := length_bytesOf words
      have reads := @reads_joined [] none bits (joined words ++ tail) tail words small suffix (by
        rw [eight]
        decide)
      refine inetCidrPtonIpv6_eq (leadingColon_joined begun tail) reads ?_
      rw [List.nil_append, expanded, count, eight, if_neg (by decide), bytes]
      exact congrArg some (List.append_nil _)
  | compressed front zeros after small eight gap bytes =>
      obtain ⟨left, right⟩ := List.forall_mem_append.mp small
      have countFront := length_bytesOf front
      have countAfter := length_bytesOf after
      have behind : Reads (joined after ++ tail)
          { tmp := bytesOf front, colonp := some (bytesOf front).length, curtok := joined after ++ tail }
          (bytesOf front ++ bytesOf after) (some (bytesOf front).length) bits :=
        reads_joined right suffix (by omega)
      have whole := @expanded_gap (bytesOf front) (bytesOf after) (2 * zeros) (by omega) (by omega)
      rw [← bytes] at whole
      rw [List.append_assoc, List.cons_append, List.cons_append]
      cases front with
      | nil => exact inetCidrPtonIpv6_eq rfl (reads_gap behind) whole
      | cons word front =>
          have leading := leadingColon_joined (List.cons_ne_nil word front) (':' :: ':' :: (joined after ++ tail))
          refine inetCidrPtonIpv6_eq leading ?_ whole
          exact reads_words left (List.cons_ne_nil word front) (List.cons_ne_nil _ _)
            (by rw [List.length_nil]; omega) (reads_gap behind)
  | embedded zeros words octet octets small six gap three bytes =>
      have count := length_bytesOf words
      have behind : Reads (dotted (octet :: octets) ++ tail)
          { tmp := bytesOf words, colonp := some 0, curtok := dotted (octet :: octets) ++ tail }
          (bytesOf words ++ octet :: octets) (some 0) bits :=
        reads_ipv4 three suffix (by omega)
      have whole := @expanded_gap [] (bytesOf words ++ octet :: octets) (2 * zeros) (by omega) (by
        rw [List.length_nil, List.length_append, List.length_cons]
        omega)
      rw [List.nil_append, ← bytes] at whole
      rw [List.append_assoc, List.cons_append, List.cons_append]
      cases words with
      | nil => exact inetCidrPtonIpv6_eq rfl (reads_gap behind) whole
      | cons word words =>
          rw [coloned_cons, List.cons_append]
          refine inetCidrPtonIpv6_eq rfl (reads_gap ?_) whole
          refine reads_words small (List.cons_ne_nil word words) ?_ (by rw [List.length_nil]; omega) behind
          exact List.append_ne_nil_of_left_ne_nil
            (List.append_ne_nil_of_left_ne_nil Nat.toDigits_ne_nil _) _

theorem mem_coloned {words : List Nat} {c : Char} (member : c ∈ coloned words) :
    c = ':' ∨ ∃ n, hexDigit? c = some n := by
  obtain ⟨word, -, own⟩ := List.mem_flatMap.mp member
  rcases List.mem_cons.mp own with colon | digit
  · exact Or.inl colon
  · exact Or.inr (hexDigit_word digit)

theorem mem_joined {words : List Nat} {c : Char} (member : c ∈ joined words) :
    c = ':' ∨ ∃ n, hexDigit? c = some n := by
  cases words with
  | nil => exact absurd member List.not_mem_nil
  | cons word words =>
      rcases List.mem_append.mp member with own | later
      · exact Or.inr (hexDigit_word own)
      · exact mem_coloned later

theorem Shows.slash_not_mem {src : List UInt8} {text : List Char} (own : Shows src text) : '/' ∉ text := by
  have mark : ¬('/' = ':' ∨ ∃ n, hexDigit? '/' = some n) := by
    rintro (colon | ⟨n, digit⟩)
    · exact absurd colon (by decide)
    · exact Option.some_ne_none n (digit.symm.trans rfl)
  intro member
  cases own with
  | whole words small eight bytes => exact mark (mem_joined member)
  | compressed front zeros after small eight gap bytes =>
      rcases List.mem_append.mp member with left | right
      · exact mark (mem_joined left)
      · rcases List.mem_cons.mp right with colon | right
        · exact mark (Or.inl colon)
        · rcases List.mem_cons.mp right with colon | right
          · exact mark (Or.inl colon)
          · exact mark (mem_joined right)
  | embedded zeros words octet octets small six gap three bytes =>
      rcases List.mem_append.mp member with left | right
      · rcases List.mem_cons.mp left with colon | left
        · exact mark (Or.inl colon)
        · exact mark (mem_coloned left)
      · rcases List.mem_cons.mp right with colon | right
        · exact mark (Or.inl colon)
        · rcases mem_dotted right with digit | point
          · exact absurd digit (by decide)
          · exact absurd point (by decide)

theorem Shows.colon_mem {src : List UInt8} {text : List Char} (own : Shows src text) : ':' ∈ text := by
  cases own with
  | whole words small eight bytes =>
      match words, eight with
      | first :: second :: words, eight =>
          exact List.mem_append_right _ List.mem_cons_self
  | compressed front zeros after small eight gap bytes =>
      exact List.mem_append_right _ List.mem_cons_self
  | embedded zeros words octet octets small six gap three bytes => exact List.mem_cons_self

theorem suffix_slashed {bits : Nat} (inside : bits ≤ 128) :
    ∃ given, Suffix (slashed 128 bits) given ∧ given.getD 128 = bits := by
  by_cases full : bits = 128
  · rw [slashed, if_neg (not_not.mpr full)]
    exact ⟨none, Suffix.none, full.symm⟩
  · rw [slashed, if_pos full]
    exact ⟨some bits, Suffix.slash inside, rfl⟩

variable {address : NetAddress}

theorem inetText_ipv6 (ipv6 : address.family = .inet6) (field : address.ipaddr.length = 16)
    (inside : address.bits.toNat ≤ 128) :
    ∃ text, Shows address.ipaddr text ∧
      inetText address = .ok (text ++ slashed 128 address.bits.toNat) := by
  have other : ¬address.family = .inet := by
    rw [ipv6]
    decide
  obtain ⟨text, own, printed⟩ := inetNetNtopIpv6_eq field inside
  refine ⟨text, own, ?_⟩
  rw [inetText, inetNetNtop, if_neg other, printed]
  rfl

theorem cidrText_ipv6 (ipv6 : address.family = .inet6) (field : address.ipaddr.length = 16)
    (inside : address.bits.toNat ≤ 128) :
    ∃ text, Shows address.ipaddr text ∧
      cidrText address = .ok (text ++ '/' :: Nat.toDigits 10 address.bits.toNat) := by
  have size : netTextSize = 50 := rfl
  have digits := (@Nat.length_toDigits_le_iff 10 address.bits.toNat 3 (by decide) (by decide)).mpr (by omega)
  obtain ⟨text, own, printed⟩ := inetText_ipv6 ipv6 field inside
  have short := own.length
  refine ⟨text, own, ?_⟩
  rw [cidrText, printed, ok_bind, slashed]
  by_cases full : address.bits.toNat = 128
  · rw [if_neg (not_not.mpr full), List.append_nil, if_neg own.slash_not_mem,
      snprintf_fits (by rw [List.length_cons]; omega)]
    rfl
  · rw [if_pos full, if_pos (List.mem_append_right _ List.mem_cons_self)]
    rfl

theorem storeAddress_ipv6_iff (ipv6 : address.family = .inet6) (field : address.ipaddr.length = 16)
    (inside : address.bits.toNat ≤ 128) (type : String) :
    (∃ read, storeAddress .inet6 type (some (address.bits.toNat, address.ipaddr)) = .ok read ∧
      SameNetwork address read) ↔ address.bits.toNat ≤ 32 := by
  have width : familyWidth address.family = 128 := by
    rw [ipv6]
    rfl
  rw [storeAddress, UInt8.ofNat_toNat]
  constructor
  · rintro ⟨read, stored, -⟩
    by_contra wide
    have refused : address.bits.toNat > if pgsqlAfInet ≠ 0 then 32 else 128 := Nat.lt_of_not_le wide
    rw [if_pos refused] at stored
    cases stored
  · intro narrow
    have taken : ¬address.bits.toNat > if pgsqlAfInet ≠ 0 then 32 else 128 := Nat.not_lt.mpr narrow
    rw [if_neg taken, field, Nat.sub_self, List.replicate_zero, List.append_nil, ← ipv6]
    exact ⟨_, rfl, sameNetwork_of (inside.trans_eq width.symm) rfl rfl⟩

theorem inet_ipv6_iff (ipv6 : address.family = .inet6) (field : address.ipaddr.length = 16)
    (inside : address.bits.toNat ≤ 128) :
    (∃ text read, inetText address = .ok text ∧ inetOfText text = .ok read ∧ SameNetwork address read) ↔
      address.bits.toNat ≤ 32 := by
  obtain ⟨shown, own, printed⟩ := inetText_ipv6 ipv6 field inside
  obtain ⟨given, suffix, same⟩ := suffix_slashed inside
  have colon : ':' ∈ shown ++ slashed 128 address.bits.toNat := List.mem_append_left _ own.colon_mem
  have parsed : inetOfText (shown ++ slashed 128 address.bits.toNat) =
      storeAddress .inet6 "inet" (some (address.bits.toNat, address.ipaddr)) := by
    rw [inetOfText, if_pos colon, inetNetPtonIpv6, own.parses suffix, same]
  rw [← storeAddress_ipv6_iff ipv6 field inside "inet", ← parsed]
  constructor
  · rintro ⟨text, read, wrote, rest⟩
    cases printed.symm.trans wrote
    exact ⟨read, rest⟩
  · rintro ⟨read, rest⟩
    exact ⟨_, read, printed, rest⟩

theorem cidr_ipv6_iff (ipv6 : address.family = .inet6) (field : address.ipaddr.length = 16)
    (inside : address.bits.toNat ≤ 128) (clear : ClearBehind address.ipaddr address.bits.toNat 128) :
    (∃ text read, cidrText address = .ok text ∧ cidrOfText text = .ok read ∧ SameNetwork address read) ↔
      address.bits.toNat ≤ 32 := by
  have width : familyWidth address.family = 128 := by
    rw [ipv6]
    rfl
  obtain ⟨shown, own, printed⟩ := cidrText_ipv6 ipv6 field inside
  have colon : ':' ∈ shown ++ '/' :: Nat.toDigits 10 address.bits.toNat :=
    List.mem_append_left _ own.colon_mem
  have parsed := own.parses (Suffix.slash inside)
  rw [Option.getD_some] at parsed
  rw [← storeAddress_ipv6_iff ipv6 field inside "cidr"]
  constructor
  · rintro ⟨text, read, wrote, built, rest⟩
    cases printed.symm.trans wrote
    rw [cidrOfText, if_pos colon, parsed] at built
    obtain ⟨value, stored, checked⟩ := bind_ok.mp built
    dsimp only at checked
    split at checked
    · cases checked
      exact ⟨read, stored, rest⟩
    · cases checked
  · rintro ⟨read, stored, rest⟩
    refine ⟨_, read, printed, ?_, rest⟩
    have accepted : addressOk read.ipaddr read.bits.toNat read.family = true := by
      rw [rest.bits, rest.family]
      apply (addressOk_iff (inside.trans_eq width.symm)).mpr
      have same := rest.ipaddr
      rw [width] at same ⊢
      exact clearBehind_congr same rfl clear
    rw [cidrOfText, if_pos colon, parsed, stored, ok_bind]
    exact if_pos accepted

/-- IPv6 addresses and networks come back from their texts exactly if their prefix length is one that
IPv4 has too. -/
theorem ipv6_text_returns_iff (address : NetAddress) (ipv6 : address.family = .inet6)
    (field : address.ipaddr.length = 16) (inside : address.bits.toNat ≤ 128) :
    ((∃ text read, inetText address = .ok text ∧ inetOfText text = .ok read ∧
        SameNetwork address read) ↔ address.bits.toNat ≤ 32) ∧
    (ClearBehind address.ipaddr address.bits.toNat 128 →
      ((∃ text read, cidrText address = .ok text ∧ cidrOfText text = .ok read ∧
        SameNetwork address read) ↔ address.bits.toNat ≤ 32)) :=
  ⟨inet_ipv6_iff ipv6 field inside, cidr_ipv6_iff ipv6 field inside⟩

theorem ipv6_text_returns_network :
    ∃ text read,
      cidrText { family := .inet6, bits := 32, ipaddr := [0x20, 0x01, 0x0d, 0xb8] ++ List.replicate 12 0 } =
        .ok text ∧ cidrOfText text = .ok read ∧
      SameNetwork
        { family := .inet6, bits := 32, ipaddr := [0x20, 0x01, 0x0d, 0xb8] ++ List.replicate 12 0 } read :=
  ((ipv6_text_returns_iff _ rfl rfl (by decide)).2 (by unfold ClearBehind; decide)).mpr (by decide)

theorem ipv6_text_refused :
    (¬∃ text read,
      inetText { family := .inet6, bits := 128, ipaddr := List.replicate 15 0 ++ [1] } = .ok text ∧
        inetOfText text = .ok read ∧
        SameNetwork { family := .inet6, bits := 128, ipaddr := List.replicate 15 0 ++ [1] } read) ∧
    ClearBehind (0xfe :: 0x80 :: List.replicate 14 0) 64 128 ∧
    ¬∃ text read,
      cidrText { family := .inet6, bits := 64, ipaddr := 0xfe :: 0x80 :: List.replicate 14 0 } = .ok text ∧
        cidrOfText text = .ok read ∧
        SameNetwork { family := .inet6, bits := 64, ipaddr := 0xfe :: 0x80 :: List.replicate 14 0 } read := by
  have clear : ClearBehind (0xfe :: 0x80 :: List.replicate 14 0) 64 128 := by
    unfold ClearBehind
    decide
  refine ⟨fun returns => ?_, clear, fun returns => ?_⟩
  · exact absurd ((inet_ipv6_iff rfl rfl (by decide)).mp returns) (by decide)
  · exact absurd ((cidr_ipv6_iff rfl rfl (by decide) clear).mp returns) (by decide)

end RoundTrip

end PqAsync
