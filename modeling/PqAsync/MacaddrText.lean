import PqAsync.Library.Scanf
import PqAsync.Macaddr8Text

/-!
The texts of a `macaddr`: the notations that its parser tries one behind the other, what each of
them reads, and the way back from the text that is printed.
-/

namespace PqAsync

open Scanf

section Source

def invalidMacaddr : WireError := .exception "invalid input syntax for type macaddr"
def invalidOctet : WireError := .exception "invalid octet value in \"macaddr\""

/-- `%1s` matches iff there is trailing non-whitespace garbage. -/
def macaddrFormats : List String :=
  ["%x:%x:%x:%x:%x:%x%1s",
   "%x-%x-%x-%x-%x-%x%1s",
   "%2x%2x%2x:%2x%2x%2x%1s",
   "%2x%2x%2x-%2x%2x%2x%1s",
   "%2x%2x.%2x%2x.%2x%2x%1s",
   "%2x%2x-%2x%2x-%2x%2x%1s",
   "%2x%2x%2x%2x%2x%2x%1s"]

theorem hexDigit_alphabet (c : Char) (digit : (hexDigit? c).isSome = true) :
    isSpace c = false ∧ c ∉ ['+', '-', 'x', 'X'] := by
  obtain ⟨n, value⟩ := Option.isSome_iff_exists.mp digit
  refine ⟨(hexDigit_plain value).1, fun mark => ?_⟩
  simp only [List.mem_cons, List.not_mem_nil, or_false] at mark
  rcases mark with rfl | rfl | rfl | rfl <;> cases value

def cLocale : Alphabet where
  isSpace := isSpace
  digit? := hexDigit?
  plain := hexDigit_alphabet

/-- `a` to `f`, if the count is 6: the six integers are assigned, and no junk. -/
def sscanfOctets (str : List Char) (format : String) : Option (List Int) :=
  match scan cLocale (directives format.toList) str with
  | [.number a, .number b, .number c, .number d, .number e, .number f] => some [a, b, c, d, e, f]
  | _ => none

def macaddrOfOctets : List Int → Except WireError Macaddr
  | [a, b, c, d, e, f] =>
      if a < 0 ∨ a > 255 ∨ b < 0 ∨ b > 255 ∨ c < 0 ∨ c > 255 ∨ d < 0 ∨ d > 255 ∨
          e < 0 ∨ e > 255 ∨ f < 0 ∨ f > 255 then .error invalidOctet
      else .ok
        { a := UInt8.ofNat a.toNat, b := UInt8.ofNat b.toNat, c := UInt8.ofNat c.toNat,
          d := UInt8.ofNat d.toNat, e := UInt8.ofNat e.toNat, f := UInt8.ofNat f.toNat }
  | _ => .error invalidMacaddr

def macaddrOfText (str : List Char) : Except WireError Macaddr :=
  match macaddrFormats.findSome? (sscanfOctets str) with
  | none => .error invalidMacaddr
  | some octets => macaddrOfOctets octets

def macaddrText (value : Macaddr) : List Char :=
  hex02 value.a ++ ':' :: hex02 value.b ++ ':' :: hex02 value.c ++ ':' :: hex02 value.d ++
    ':' :: hex02 value.e ++ ':' :: hex02 value.f

end Source

section Scanning

variable {format : String} {fields : List (List Char)} {front text : List Char} {values : List Int}

theorem formats_closed : ∀ format ∈ macaddrFormats, closed (directives format.toList) = true ∧
    hexes (directives format.toList) = 6 := by
  decide

theorem formats_exclude : macaddrFormats.Pairwise fun first second =>
    excludes cLocale (directives first.toList) (directives second.toList) = true := by
  decide

theorem formats_start : ∀ format ∈ macaddrFormats,
    ∃ width rest, directives format.toList = .hex width :: rest := by
  intro format known
  simp only [macaddrFormats, List.mem_cons, List.not_mem_nil, or_false] at known
  rcases known with rfl | rfl | rfl | rfl | rfl | rfl | rfl <;> exact ⟨_, _, rfl⟩

theorem sscanfOctets_iff : sscanfOctets text format = some values ↔
    values.length = 6 ∧ scan cLocale (directives format.toList) text = values.map .number := by
  constructor
  · intro assigned
    rw [sscanfOctets] at assigned
    split at assigned
    · next scanned =>
        injection assigned with same
        exact ⟨same ▸ rfl, same ▸ scanned⟩
    · cases assigned
  · rintro ⟨six, scanned⟩
    rw [sscanfOctets, scanned]
    match values, six with
    | [_, _, _, _, _, _], _ => rfl

theorem laid_of_sscanfOctets (known : format ∈ macaddrFormats)
    (assigned : sscanfOctets text format = some values) :
    Laid cLocale (directives format.toList) text values := by
  obtain ⟨six, scanned⟩ := sscanfOctets_iff.mp assigned
  obtain ⟨ends, counted⟩ := formats_closed format known
  have all : (scan cLocale (directives format.toList) text).length =
      hexes (directives format.toList) := by
    rw [scanned, List.length_map, six, counted]
  obtain ⟨read, same, laid⟩ := laid_of_scan ends all
  have inj : Function.Injective Assigned.number := fun _ _ same => Assigned.number.inj same
  rwa [inj.list_map (scanned.symm.trans same)]

theorem spelled_six (known : format ∈ macaddrFormats)
    (spelled : Spelled cLocale (directives format.toList) fields text) : fields.length = 6 :=
  spelled.length.trans (formats_closed format known).2

theorem sscanfOctets_spelled (known : format ∈ macaddrFormats)
    (spaces : front.all isSpace = true)
    (spelled : Spelled cLocale (directives format.toList) fields text) :
    sscanfOctets (front ++ text) format = some (fields.map (valueOf cLocale)) := by
  rw [sscanfOctets_iff, List.length_map, List.map_map]
  refine ⟨spelled_six known spelled, ?_⟩
  have read := spelled.scan
  obtain ⟨width, rest, starts⟩ := formats_start format known
  rw [starts] at read ⊢
  exact (scan_front spaces).trans read

theorem macaddrOfText_spelled (known : format ∈ macaddrFormats) (spaces : front.all isSpace = true)
    (spelled : Spelled cLocale (directives format.toList) fields text) :
    macaddrOfText (front ++ text) = macaddrOfOctets (fields.map (valueOf cLocale)) := by
  have found : macaddrFormats.findSome? (sscanfOctets (front ++ text)) =
      some (fields.map (valueOf cLocale)) := by
    obtain ⟨before, after, split⟩ := List.append_of_mem known
    refine List.findSome?_eq_some_iff.mpr
      ⟨before, format, after, split, sscanfOctets_spelled known spaces spelled, ?_⟩
    intro first inside
    cases assigned : sscanfOctets (front ++ text) first with
    | none => rfl
    | some values =>
        have ordered := formats_exclude
        rw [split] at ordered
        have excluded :=
          (List.pairwise_append.mp ordered).2.2 first inside format List.mem_cons_self
        have firstKnown : first ∈ macaddrFormats := split ▸ List.mem_append_left _ inside
        exact absurd (laid_of_sscanfOctets firstKnown assigned)
          (spelled.not_laid spaces excluded)
  rw [macaddrOfText, found]

end Scanning

section Octets

variable {field : List Char} {byte : UInt8} {c first second : Char}

def octetsOf (bytes : List UInt8) : List Int := bytes.map fun byte => (byte.toNat : Int)

theorem ofNat_octet {octet : Int} (notNegative : ¬octet < 0) (notLarge : ¬octet > 255) :
    ((UInt8.ofNat octet.toNat).toNat : Int) = octet := by
  rw [UInt8.toNat_ofNat']
  omega

theorem macaddrOfOctets_iff {values : List Int} {m : Macaddr} :
    macaddrOfOctets values = .ok m ↔ values = octetsOf m.bytes := by
  constructor
  · intro made
    unfold macaddrOfOctets at made
    split at made
    · next a b c d e f =>
        split at made
        · cases made
        · next inside =>
            injection made with same
            subst same
            simp only [not_or] at inside
            obtain ⟨a0, a1, b0, b1, c0, c1, d0, d1, e0, e1, f0, f1⟩ := inside
            simp only [octetsOf, Macaddr.bytes, List.map_cons, List.map_nil, ofNat_octet a0 a1,
              ofNat_octet b0 b1, ofNat_octet c0 c1, ofNat_octet d0 d1, ofNat_octet e0 e1,
              ofNat_octet f0 f1]
    · cases made
  · rintro rfl
    have inside (byte : UInt8) : ¬(byte.toNat : Int) < 0 ∧ ¬(byte.toNat : Int) > 255 := by
      have := byte.toNat_lt
      omega
    simp [octetsOf, Macaddr.bytes, macaddrOfOctets, inside]

theorem macaddrOfOctets_six {values : List Int} (six : values.length = 6) :
    (∃ m, macaddrOfOctets values = .ok m) ∨ macaddrOfOctets values = .error invalidOctet := by
  match values, six with
  | [_, _, _, _, _, _], _ =>
      rw [macaddrOfOctets]
      split
      · exact .inr rfl
      · exact .inl ⟨_, rfl⟩

theorem hexDigit_lt {digit : Nat} (value : hexDigit? c = some digit) : digit < 16 := by
  unfold hexDigit? at value
  split at value
  · next decimal =>
      have upper : c.toNat ≤ 57 := decimal.2
      injection value with same
      subst same
      change c.toNat - 48 < 16
      omega
  · split at value
    · next lower =>
        have upper : c.toNat ≤ 102 := lower.2
        injection value with same
        subst same
        change c.toNat - 97 + 10 < 16
        omega
    · split at value
      · next capital =>
          have upper : c.toNat ≤ 70 := capital.2
          injection value with same
          subst same
          change c.toNat - 65 + 10 < 16
          omega
      · cases value

theorem valueOf_pair (value : hex2ToUchar first second = .ok byte) :
    Numeral cLocale [first, second] ∧ valueOf cLocale [first, second] = (byte.toNat : Int) := by
  rw [hex2ToUchar] at value
  split at value
  · next high low highDigit lowDigit =>
      injection value with same
      have bounds := And.intro (hexDigit_lt highDigit) (hexDigit_lt lowDigit)
      have number : numberOf cLocale [first, second] = high * 16 + low := by
        simp [numberOf, cLocale, highDigit, lowDigit, Nat.mul_comm]
      refine ⟨⟨List.cons_ne_nil _ _, by simp [isDigit, cLocale, highDigit, lowDigit]⟩, ?_⟩
      rw [valueOf_small (by omega), number, ← same, UInt8.toNat_ofNat']
      omega
  · cases value

theorem pair_of_numeral (numeral : Numeral cLocale field) (two : field.length = 2) :
    ∃ first second byte, field = [first, second] ∧ hex2ToUchar first second = .ok byte := by
  match field, two with
  | [first, second], _ =>
      have digits := numeral.digits
      simp only [List.all_cons, List.all_nil, Bool.and_true, Bool.and_eq_true] at digits
      obtain ⟨high, highDigit⟩ := Option.isSome_iff_exists.mp digits.1
      obtain ⟨low, lowDigit⟩ := Option.isSome_iff_exists.mp digits.2
      change hexDigit? first = some high at highDigit
      change hexDigit? second = some low at lowDigit
      exact ⟨first, second, _, rfl, by rw [hex2ToUchar, highDigit, lowDigit]⟩

end Octets

section Pairs

variable {format : List Directive} {fields : List (List Char)} {text : List Char}

def joinedBy (separator : Char) : List Directive → Bool
  | [.hex _, .word _] => true
  | .hex _ :: .char c :: .hex width :: format =>
      c = separator && joinedBy separator (.hex width :: format)
  | .hex _ :: .hex width :: format => joinedBy separator (.hex width :: format)
  | _ => false

theorem formats_joined : ∀ format ∈ macaddrFormats,
    ∃ separator ∈ [':', '-', '.'], joinedBy separator (directives format.toList) = true := by
  intro format known
  simp only [macaddrFormats, List.mem_cons, List.not_mem_nil, or_false] at known
  rcases known with rfl | rfl | rfl | rfl | rfl | rfl | rfl
  · exact ⟨':', List.mem_cons_self, rfl⟩
  · exact ⟨'-', List.mem_cons_of_mem _ List.mem_cons_self, rfl⟩
  · exact ⟨':', List.mem_cons_self, rfl⟩
  · exact ⟨'-', List.mem_cons_of_mem _ List.mem_cons_self, rfl⟩
  · exact ⟨'.', List.mem_cons_of_mem _ (List.mem_cons_of_mem _ List.mem_cons_self), rfl⟩
  · exact ⟨'-', List.mem_cons_of_mem _ List.mem_cons_self, rfl⟩
  · exact ⟨':', List.mem_cons_self, rfl⟩

theorem hexPairs_of_spelled {separator : Char} (joins : joinedBy separator format = true)
    (spelled : Spelled cLocale format fields text) (pairs : ∀ field ∈ fields, field.length = 2) :
    ∃ own back bytes, text = own ++ back ∧ back.all isSpace = true ∧
      HexPairs separator own bytes ∧ fields.map (valueOf cLocale) = octetsOf bytes := by
  fun_induction joinedBy separator format generalizing fields text with
  | case1 width last =>
      cases spelled with
      | hex numeral _ _ rest =>
          cases rest with
          | clean spaces =>
              obtain ⟨first, second, byte, rfl, value⟩ :=
                pair_of_numeral numeral (pairs _ List.mem_cons_self)
              refine ⟨_, _, [byte], rfl, spaces, .last value, ?_⟩
              rw [List.map_cons, (valueOf_pair value).2]
              rfl
  | case2 width c next format ih =>
      simp only [Bool.and_eq_true, decide_eq_true_iff] at joins
      obtain ⟨rfl, joins⟩ := joins
      cases spelled with
      | hex numeral _ _ rest =>
          cases rest with
          | char _ rest =>
              obtain ⟨first, second, byte, rfl, value⟩ :=
                pair_of_numeral numeral (pairs _ List.mem_cons_self)
              obtain ⟨own, back, bytes, rfl, spaces, hexPairs, values⟩ :=
                ih joins rest fun field inside => pairs field (List.mem_cons_of_mem _ inside)
              refine ⟨_, back, byte :: bytes, rfl, spaces, .separated value hexPairs, ?_⟩
              rw [List.map_cons, (valueOf_pair value).2, values]
              rfl
  | case3 width next format ih =>
      cases spelled with
      | hex numeral _ _ rest =>
          obtain ⟨first, second, byte, rfl, value⟩ :=
            pair_of_numeral numeral (pairs _ List.mem_cons_self)
          obtain ⟨own, back, bytes, rfl, spaces, hexPairs, values⟩ :=
            ih joins rest fun field inside => pairs field (List.mem_cons_of_mem _ inside)
          refine ⟨_, back, byte :: bytes, rfl, spaces, .joined value hexPairs, ?_⟩
          rw [List.map_cons, (valueOf_pair value).2, values]
          rfl
  | case4 => cases joins

end Pairs

section Texts

variable {format : List Directive} {fields : List (List Char)} {text : List Char}

theorem exists_macaddr {bytes : List UInt8} (six : bytes.length = 6) :
    ∃ m : Macaddr, m.bytes = bytes := by
  match bytes, six with
  | [a, b, c, d, e, f], _ => exact ⟨⟨a, b, c, d, e, f⟩, rfl⟩

theorem hex02_value (byte : UInt8) :
    Numeral cLocale (hex02 byte) ∧ valueOf cLocale (hex02 byte) = (byte.toNat : Int) :=
  valueOf_pair (hex2ToUchar_hex02 byte)

theorem spelled_octet (byte : UInt8) (stops : Stops cLocale text)
    (behind : Spelled cLocale format fields text) :
    Spelled cLocale (.hex none :: format) (hex02 byte :: fields) (hex02 byte ++ text) :=
  .hex (hex02_value byte).1 (fun _ wide => by cases wide) (fun _ => stops) behind

theorem spelled_colon (byte : UInt8) (behind : Spelled cLocale format fields text) :
    Spelled cLocale (.hex none :: .char ':' :: format) (hex02 byte :: fields)
      (hex02 byte ++ ':' :: text) := by
  refine spelled_octet byte ?_ (.char rfl behind)
  intro c head
  injection head with same
  subst same
  exact ⟨rfl, by decide⟩

theorem macaddrText_spelled (m : Macaddr) :
    Spelled cLocale (directives "%x:%x:%x:%x:%x:%x%1s".toList) (m.bytes.map hex02)
      (macaddrText m) := by
  have last : Spelled cLocale (.hex none :: [.word 1]) [hex02 m.f] (hex02 m.f ++ []) := by
    refine spelled_octet m.f ?_ (.clean rfl)
    intro c head
    cases head
  exact spelled_colon m.a (spelled_colon m.b (spelled_colon m.c (spelled_colon m.d
    (spelled_colon m.e last))))

theorem macaddrOfText_text (m : Macaddr) : macaddrOfText (macaddrText m) = .ok m := by
  have read := @macaddrOfText_spelled _ _ [] _ List.mem_cons_self rfl (macaddrText_spelled m)
  rw [List.nil_append, List.map_map] at read
  refine read.trans (macaddrOfOctets_iff.mpr (List.map_congr_left fun byte _ => ?_))
  exact (hex02_value byte).2

/-- What the parser of a `macaddr` accepts and reads. -/
structure MacaddrTexts : Prop where
  formed : ∀ text m, macaddrOfText text = .ok m → ∃ format ∈ macaddrFormats,
    Laid cLocale (directives format.toList) text (octetsOf m.bytes)
  read : ∀ format ∈ macaddrFormats, ∀ front fields text, front.all isSpace = true →
    Spelled cLocale (directives format.toList) fields text →
      (∀ m, macaddrOfText (front ++ text) = .ok m ↔
        fields.map (valueOf cLocale) = octetsOf m.bytes) ∧
      ((∃ m, macaddrOfText (front ++ text) = .ok m) ∨
        macaddrOfText (front ++ text) = .error invalidOctet)
  sibling : ∀ format ∈ macaddrFormats, ∀ front fields text, front.all isSpace = true →
    Spelled cLocale (directives format.toList) fields text →
      (∀ field ∈ fields, field.length = 2) → ∃ m m8, macaddrOfText (front ++ text) = .ok m ∧
        macaddr8OfText (front ++ text) = .ok m8 ∧ m8.bytes = eui64 m.bytes
  printed : ∀ m, macaddrOfText (macaddrText m) = .ok m

/-- What is accepted is laid out in one of the notations, every notation is read with white space
around it, the parser of a `macaddr8` reads its pairs as the same address, and so is what is
printed. -/
theorem macaddr_texts : MacaddrTexts where
  formed text m accepted := by
    rw [macaddrOfText] at accepted
    split at accepted
    · cases accepted
    · next octets found =>
        obtain ⟨before, format, _, split, assigned, _⟩ := List.findSome?_eq_some_iff.mp found
        have known : format ∈ macaddrFormats := by
          rw [split]
          exact List.mem_append_right _ List.mem_cons_self
        exact ⟨format, known,
          macaddrOfOctets_iff.mp accepted ▸ laid_of_sscanfOctets known assigned⟩
  read format known front fields text spaces spelled := by
    rw [macaddrOfText_spelled known spaces spelled]
    have six := spelled_six known spelled
    exact ⟨fun m => macaddrOfOctets_iff, macaddrOfOctets_six (by rwa [List.length_map])⟩
  sibling format known front fields text spaces spelled pairs := by
    obtain ⟨separator, isSeparator, joins⟩ := formats_joined format known
    obtain ⟨own, back, bytes, rfl, clean, hexPairs, values⟩ :=
      hexPairs_of_spelled joins spelled pairs
    have six : bytes.length = 6 := by
      have count := congrArg List.length values
      rwa [List.length_map, spelled_six known spelled, octetsOf, List.length_map, eq_comm] at count
    have spacer : isSpacer separator = true := by
      simpa [isSpacer] using isSeparator
    have grammar : Macaddr8Grammar (front ++ own ++ back) bytes :=
      ⟨⟨separator, front, own, back, spacer, spaces, hexPairs, clean, rfl⟩, .inl six⟩
    obtain ⟨m, same⟩ := exists_macaddr six
    obtain ⟨m8, same8⟩ := exists_eui64 (.inl six)
    refine ⟨m, m8, ?_, ?_, same ▸ same8⟩
    · rw [macaddrOfText_spelled known spaces spelled, values]
      exact macaddrOfOctets_iff.mpr (same ▸ rfl)
    · rw [← List.append_assoc]
      exact macaddr8OfText_iff.mpr ⟨bytes, grammar.accepted, same8⟩
  printed := macaddrOfText_text

end Texts

end PqAsync
