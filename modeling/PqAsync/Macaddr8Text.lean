import PqAsync.HardwareOrder
import PqAsync.Library.Results
import PqAsync.NetTextCore
import PqAsync.SplitCore

/-!
The texts of a `macaddr8`: what its parser accepts, against the grammar of six or eight pairs of
digits, and the way back from the text that is printed.
-/

namespace PqAsync

section Source

def invalidMacaddr8 : WireError := .exception "invalid input syntax for type macaddr8"

def isSpacer (c : Char) : Bool := c = ':' ∨ c = '-' ∨ c = '.'

def hex2ToUchar (first second : Char) : Except WireError UInt8 :=
  match hexDigit? first, hexDigit? second with
  | some high, some low => .ok (UInt8.ofNat (high * 16 + low))
  | _, _ => .error invalidMacaddr8

def endsAt (count : Nat) (ptr : List Char) : Bool :=
  (count = 6 ∨ count = 8) ∧ ptr.head?.any isSpace

/-- The bytes are `a`, `b`, `c` and so on, as many as `count` says. Nothing is left to do once there
is no second character at the pointer. -/
def macaddr8Loop : List Char → Option Char → List UInt8 → Except WireError (List UInt8)
  | first :: second :: rest, spacer, bytes =>
      if bytes.length ≥ 8 then .error invalidMacaddr8
      else match hex2ToUchar first second with
        | .error invalid => .error invalid
        | .ok byte =>
            match rest with
            | [] => .ok (bytes ++ [byte])
            | next :: behind =>
                if isSpacer next then
                  if spacer ≠ none ∧ spacer ≠ some next then .error invalidMacaddr8
                  else if endsAt (bytes.length + 1) behind then
                    if behind.all isSpace then .ok (bytes ++ [byte]) else .error invalidMacaddr8
                  else macaddr8Loop behind (some next) (bytes ++ [byte])
                else if endsAt (bytes.length + 1) (next :: behind) then
                  if (next :: behind).all isSpace then .ok (bytes ++ [byte]) else .error invalidMacaddr8
                else macaddr8Loop (next :: behind) spacer (bytes ++ [byte])
  | _, _, bytes => .ok bytes

def macaddr8OfBytes : List UInt8 → Except WireError Macaddr8
  | [a, b, c, d, e, f] => .ok { a, b, c, d := 0xff, e := 0xfe, f := d, g := e, h := f }
  | [a, b, c, d, e, f, g, h] => .ok { a, b, c, d, e, f, g, h }
  | _ => .error invalidMacaddr8

def macaddr8OfText (str : List Char) : Except WireError Macaddr8 := do
  macaddr8OfBytes (← macaddr8Loop (str.dropWhile isSpace) none [])

/-- A byte as `%02x` prints it. -/
def hex02 (byte : UInt8) : List Char :=
  [Nat.digitChar (byte.toNat / 16), Nat.digitChar (byte.toNat % 16)]

def macaddr8Text (value : Macaddr8) : List Char :=
  hex02 value.a ++ ':' :: hex02 value.b ++ ':' :: hex02 value.c ++ ':' :: hex02 value.d ++
    ':' :: hex02 value.e ++ ':' :: hex02 value.f ++ ':' :: hex02 value.g ++ ':' :: hex02 value.h

end Source

section Grammar

inductive HexPairs (separator : Char) : List Char → List UInt8 → Prop
  | last {first second byte} : hex2ToUchar first second = .ok byte →
      HexPairs separator [first, second] [byte]
  | joined {first second byte text bytes} : hex2ToUchar first second = .ok byte →
      HexPairs separator text bytes →
      HexPairs separator (first :: second :: text) (byte :: bytes)
  | separated {first second byte text bytes} : hex2ToUchar first second = .ok byte →
      HexPairs separator text bytes →
      HexPairs separator (first :: second :: separator :: text) (byte :: bytes)

structure PairsThen (Rest : Char → List Char → Prop) (text : List Char) (bytes : List UInt8) :
    Prop where
  shape : ∃ separator front pairs back, isSpacer separator = true ∧ front.all isSpace = true ∧
    HexPairs separator pairs bytes ∧ Rest separator back ∧ text = front ++ pairs ++ back
  count : bytes.length = 6 ∨ bytes.length = 8

def Macaddr8Grammar : List Char → List UInt8 → Prop :=
  PairsThen fun _ back => back.all isSpace = true

/-- What else may stand behind the pairs: a separator that joins nothing, or one last character,
which may also follow a separator. -/
inductive StrayTail (separator : Char) : List Char → Prop
  | separator {spaces} : spaces.all isSpace = true → StrayTail separator (separator :: spaces)
  | single {c} : isSpace c = false → isSpacer c = false → StrayTail separator [c]
  | behind {c} : isSpace c = false → StrayTail separator [separator, c]

def StrayEnd (text : List Char) : Prop := ∃ bytes, PairsThen StrayTail text bytes

theorem hexDigit_plain {c : Char} {digit : Nat} (value : hexDigit? c = some digit) :
    isSpace c = false ∧ isSpacer c = false := by
  constructor
  · rw [Bool.eq_false_iff]
    intro space
    simp only [isSpace, Bool.or_eq_true, beq_iff_eq] at space
    rcases space with ((((rfl | rfl) | rfl) | rfl) | rfl) | rfl <;> cases value
  · rw [Bool.eq_false_iff]
    intro spacer
    simp only [isSpacer, decide_eq_true_iff] at spacer
    rcases spacer with rfl | rfl | rfl <;> cases value

theorem hex2ToUchar_plain {first second : Char} {byte : UInt8}
    (value : hex2ToUchar first second = .ok byte) :
    isSpace first = false ∧ isSpacer first = false := by
  rw [hex2ToUchar] at value
  split at value
  · next high low _ _ => exact hexDigit_plain ‹hexDigit? first = some high›
  · cases value

theorem HexPairs.head_plain {separator : Char} {text : List Char} {bytes : List UInt8}
    (pairs : HexPairs separator text bytes) :
    ∃ first rest, text = first :: rest ∧ isSpace first = false ∧ isSpacer first = false := by
  cases pairs with
  | last value => exact ⟨_, _, rfl, hex2ToUchar_plain value⟩
  | joined value _ => exact ⟨_, _, rfl, hex2ToUchar_plain value⟩
  | separated value _ => exact ⟨_, _, rfl, hex2ToUchar_plain value⟩

theorem HexPairs.length_pos {separator : Char} {text : List Char} {bytes : List UInt8}
    (pairs : HexPairs separator text bytes) : 0 < bytes.length := by
  cases pairs with
  | last _ => exact Nat.one_pos
  | joined _ _ => exact Nat.succ_pos _
  | separated _ _ => exact Nat.succ_pos _

theorem spacer_not_space {c : Char} (spacer : isSpacer c = true) : isSpace c = false := by
  simp only [isSpacer, decide_eq_true_iff] at spacer
  rcases spacer with rfl | rfl | rfl <;> rfl

theorem space_not_spacer {c : Char} (space : isSpace c = true) : isSpacer c = false := by
  rw [Bool.eq_false_iff]
  intro spacer
  rw [spacer_not_space spacer] at space
  cases space

end Grammar

section Loop

variable {first second next : Char} {behind text back : List Char} {spacer : Option Char}
variable {bytes new : List UInt8} {byte : UInt8}

theorem endsAt_iff {count : Nat} {ptr : List Char} :
    endsAt count ptr = true ↔ (count = 6 ∨ count = 8) ∧ ptr.head?.any isSpace = true := by
  rw [endsAt, decide_eq_true_iff]

def continued (ptr : List Char) (spacer : Option Char) (bytes : List UInt8) :
    Except WireError (List UInt8) :=
  if endsAt bytes.length ptr then
    if ptr.all isSpace then .ok bytes else .error invalidMacaddr8
  else macaddr8Loop ptr spacer bytes

theorem macaddr8Loop_end (value : hex2ToUchar first second = .ok byte) (room : bytes.length < 8) :
    macaddr8Loop [first, second] spacer bytes = .ok (bytes ++ [byte]) := by
  rw [macaddr8Loop, if_neg (by omega), value]

theorem macaddr8Loop_spacer (value : hex2ToUchar first second = .ok byte) (room : bytes.length < 8)
    (isSpacer : isSpacer next = true) :
    macaddr8Loop (first :: second :: next :: behind) spacer bytes =
      if spacer ≠ none ∧ spacer ≠ some next then .error invalidMacaddr8
      else continued behind (some next) (bytes ++ [byte]) := by
  rw [macaddr8Loop, if_neg (by omega), value, continued, List.length_append, List.length_singleton]
  simp only [isSpacer, if_true]

theorem macaddr8Loop_other (value : hex2ToUchar first second = .ok byte) (room : bytes.length < 8)
    (other : isSpacer next = false) :
    macaddr8Loop (first :: second :: next :: behind) spacer bytes =
      continued (next :: behind) spacer (bytes ++ [byte]) := by
  rw [macaddr8Loop, if_neg (by omega), value, continued, List.length_append, List.length_singleton]
  simp only [other, Bool.false_eq_true, if_false]

theorem macaddr8Loop_short (short : text.length ≤ 1) :
    macaddr8Loop text spacer bytes = .ok bytes := by
  match text, short with
  | [], _ => rfl
  | [_], _ => rfl

theorem continued_plain (plain : isSpace next = false) :
    continued (next :: behind) spacer bytes = macaddr8Loop (next :: behind) spacer bytes := by
  have ongoing : endsAt bytes.length (next :: behind) = false := by
    rw [Bool.eq_false_iff, Ne, endsAt_iff]
    rintro ⟨_, space⟩
    have head : isSpace next = true := space
    rw [plain] at head
    cases head
  rw [continued, ongoing]
  rfl

theorem continued_spaces (count : bytes.length = 6 ∨ bytes.length = 8)
    (spaces : back.all isSpace = true) : continued back spacer bytes = .ok bytes := by
  cases back with
  | nil =>
      have ongoing : endsAt bytes.length [] = false := by
        rw [Bool.eq_false_iff, Ne, endsAt_iff]
        rintro ⟨_, space⟩
        cases space
      rw [continued, ongoing]
      rfl
  | cons next behind =>
      have space : isSpace next = true := (List.all_eq_true.mp spaces) next List.mem_cons_self
      have ends : endsAt bytes.length (next :: behind) = true := endsAt_iff.mpr ⟨count, space⟩
      rw [continued, if_pos ends, if_pos spaces]

theorem macaddr8Loop_of_pairs {separator : Char} (pairs : HexPairs separator text new)
    (isSeparator : isSpacer separator = true)
    (compatible : spacer = none ∨ spacer = some separator)
    (count : (bytes ++ new).length = 6 ∨ (bytes ++ new).length = 8)
    (ending : back.all isSpace = true ∨ StrayTail separator back) :
    macaddr8Loop (text ++ back) spacer bytes = .ok (bytes ++ new) := by
  have accepted : ∀ {spacer}, spacer = none ∨ spacer = some separator →
      ¬(spacer ≠ none ∧ spacer ≠ some separator) := by
    rintro spacer compatible ⟨used, differs⟩
    exact compatible.elim used differs
  induction pairs generalizing spacer bytes with
  | last value =>
      have room : bytes.length < 8 := by
        rw [List.length_append, List.length_singleton] at count
        omega
      rcases ending with clean | stray
      · cases back with
        | nil => exact macaddr8Loop_end value room
        | cons next behind =>
            have space : isSpace next = true := (List.all_eq_true.mp clean) next List.mem_cons_self
            exact (macaddr8Loop_other value room (space_not_spacer space)).trans
              (continued_spaces count clean)
      · cases stray with
        | separator clean =>
            refine (macaddr8Loop_spacer value room isSeparator).trans ?_
            rw [if_neg (accepted compatible)]
            exact continued_spaces count clean
        | single plain other =>
            refine (macaddr8Loop_other value room other).trans ?_
            rw [continued_plain plain]
            exact macaddr8Loop_short le_rfl
        | behind plain =>
            refine (macaddr8Loop_spacer value room isSeparator).trans ?_
            rw [if_neg (accepted compatible), continued_plain plain]
            exact macaddr8Loop_short le_rfl
  | joined value pairs ih =>
      obtain ⟨next, rest, rfl, plain, other⟩ := pairs.head_plain
      have room : bytes.length < 8 := by
        rw [List.length_append, List.length_cons] at count
        omega
      refine (macaddr8Loop_other value room other).trans ((continued_plain plain).trans ?_)
      rw [List.append_cons] at count
      have rest := ih compatible count
      rwa [← List.append_cons] at rest
  | separated value pairs ih =>
      obtain ⟨next, rest, rfl, plain, other⟩ := pairs.head_plain
      have room : bytes.length < 8 := by
        rw [List.length_append, List.length_cons] at count
        omega
      refine (macaddr8Loop_spacer value room isSeparator).trans ?_
      rw [if_neg (accepted compatible)]
      refine (continued_plain plain).trans ?_
      rw [List.append_cons] at count
      have rest := ih (.inr rfl) count
      rwa [← List.append_cons] at rest

def ReadsPairs (spacer : Option Char) (text : List Char) (new : List UInt8) : Prop :=
  ∃ separator pairs back, isSpacer separator = true ∧
    (spacer = none ∨ spacer = some separator) ∧ HexPairs separator pairs new ∧
    (back.all isSpace = true ∨ StrayTail separator back) ∧ text = pairs ++ back

inductive ReadsBehind (spacer : Option Char) : List Char → List UInt8 → Prop
  | spaces {text : List Char} : text.all isSpace = true → ReadsBehind spacer text []
  | stray {c : Char} : isSpace c = false → ReadsBehind spacer [c] []
  | pairs {text : List Char} {new : List UInt8} : ReadsPairs spacer text new →
      ReadsBehind spacer text new

theorem readsBehind_of_continued {ptr : List Char} {out : List UInt8}
    (accepted : continued ptr spacer bytes = .ok out) (count : out.length = 6 ∨ out.length = 8)
    (ih : macaddr8Loop ptr spacer bytes = .ok out →
      ptr.length ≤ 1 ∧ out = bytes ∨ ∃ new, out = bytes ++ new ∧ ReadsPairs spacer ptr new) :
    ∃ new, out = bytes ++ new ∧ ReadsBehind spacer ptr new := by
  rw [continued] at accepted
  by_cases ends : endsAt bytes.length ptr = true
  · rw [if_pos ends] at accepted
    by_cases spaces : ptr.all isSpace = true
    · rw [if_pos spaces] at accepted
      injection accepted with same
      exact ⟨[], by rw [List.append_nil, same], .spaces spaces⟩
    · rw [if_neg spaces] at accepted
      cases accepted
  · rw [if_neg ends] at accepted
    rcases ih accepted with ⟨short, rfl⟩ | ⟨new, rest, reads⟩
    · refine ⟨[], (List.append_nil out).symm, ?_⟩
      match ptr, short with
      | [], _ => exact .spaces rfl
      | [c], _ =>
          refine .stray (Bool.eq_false_iff.mpr fun space => ends ?_)
          exact endsAt_iff.mpr ⟨count, space⟩
    · exact ⟨new, rest, .pairs reads⟩

theorem readsPairs_spacer (value : hex2ToUchar first second = .ok byte)
    (isSeparator : isSpacer next = true) (compatible : spacer = none ∨ spacer = some next)
    (reads : ReadsBehind (some next) behind new) :
    ReadsPairs spacer (first :: second :: next :: behind) (byte :: new) := by
  cases reads with
  | spaces spaces =>
      exact ⟨next, [first, second], _, isSeparator, compatible, .last value,
        .inr (.separator spaces), rfl⟩
  | stray plain =>
      exact ⟨next, [first, second], _, isSeparator, compatible, .last value, .inr (.behind plain), rfl⟩
  | pairs reads =>
      obtain ⟨separator, pairs, back, _, same, hexPairs, ending, rfl⟩ := reads
      obtain rfl : next = separator := by
        rcases same with none | same
        · cases none
        · exact Option.some.inj same
      exact ⟨next, first :: second :: next :: pairs, back, isSeparator, compatible,
        .separated value hexPairs, ending, rfl⟩

theorem exists_separator (known : ∀ used, spacer = some used → isSpacer used = true) :
    ∃ separator, isSpacer separator = true ∧ (spacer = none ∨ spacer = some separator) := by
  cases spacer with
  | none => exact ⟨':', rfl, .inl rfl⟩
  | some used => exact ⟨used, known used rfl, .inr rfl⟩

theorem readsPairs_other (value : hex2ToUchar first second = .ok byte)
    (other : isSpacer next = false) (known : ∀ used, spacer = some used → isSpacer used = true)
    (reads : ReadsBehind spacer (next :: behind) new) :
    ReadsPairs spacer (first :: second :: next :: behind) (byte :: new) := by
  obtain ⟨separator, isSeparator, compatible⟩ := exists_separator known
  cases reads with
  | spaces spaces =>
      exact ⟨separator, [first, second], _, isSeparator, compatible, .last value, .inl spaces, rfl⟩
  | stray plain =>
      exact ⟨separator, [first, second], _, isSeparator, compatible, .last value,
        .inr (.single plain other), rfl⟩
  | pairs reads =>
      obtain ⟨separator, pairs, back, isSeparator, compatible, hexPairs, ending, same⟩ := reads
      exact ⟨separator, first :: second :: pairs, back, isSeparator, compatible,
        .joined value hexPairs, ending, by rw [same]; rfl⟩

theorem readsPairs_of_macaddr8Loop {out : List UInt8}
    (known : ∀ used, spacer = some used → isSpacer used = true)
    (accepted : macaddr8Loop text spacer bytes = .ok out)
    (count : out.length = 6 ∨ out.length = 8) :
    text.length ≤ 1 ∧ out = bytes ∨ ∃ new, out = bytes ++ new ∧ ReadsPairs spacer text new := by
  induction length : text.length using Nat.strongRecOn generalizing text spacer bytes with
  | ind size ih =>
      rcases text with _ | ⟨first, _ | ⟨second, rest⟩⟩
      · injection accepted with same
        exact .inl ⟨length ▸ Nat.zero_le 1, same.symm⟩
      · injection accepted with same
        exact .inl ⟨length ▸ le_rfl, same.symm⟩
      · have room : bytes.length < 8 := by
          by_contra full
          rw [macaddr8Loop, if_pos (by omega)] at accepted
          cases accepted
        cases value : hex2ToUchar first second with
        | error invalid =>
            rw [macaddr8Loop, if_neg (by omega), value] at accepted
            cases accepted
        | ok byte =>
            have longer : ∀ {new}, out = bytes ++ [byte] ++ new →
                out = bytes ++ byte :: new := fun same => same.trans (List.append_cons _ _ _).symm
            cases rest with
            | nil =>
                rw [macaddr8Loop_end value room] at accepted
                injection accepted with same
                obtain ⟨separator, isSeparator, compatible⟩ := exists_separator known
                exact .inr ⟨[byte], same.symm, separator, [first, second], [], isSeparator,
                  compatible, .last value, .inl rfl, rfl⟩
            | cons next behind =>
                by_cases separator : isSpacer next = true
                · rw [macaddr8Loop_spacer value room separator] at accepted
                  by_cases changes : spacer ≠ none ∧ spacer ≠ some next
                  · rw [if_pos changes] at accepted
                    cases accepted
                  · rw [if_neg changes] at accepted
                    have compatible : spacer = none ∨ spacer = some next := by tauto
                    have used : ∀ used, some next = some used → isSpacer used = true := by
                      rintro used ⟨⟩
                      exact separator
                    have shorter : behind.length < size := by
                      simp only [← length, List.length_cons]
                      omega
                    obtain ⟨new, same, reads⟩ := readsBehind_of_continued accepted count
                      fun accepted => ih behind.length shorter used accepted rfl
                    exact .inr ⟨byte :: new, longer same,
                      readsPairs_spacer value separator compatible reads⟩
                · have other := Bool.eq_false_iff.mpr separator
                  rw [macaddr8Loop_other value room other] at accepted
                  have shorter : (next :: behind).length < size := by
                    simp only [← length, List.length_cons]
                    omega
                  obtain ⟨new, same, reads⟩ := readsBehind_of_continued accepted count
                    fun accepted => ih (next :: behind).length shorter known accepted rfl
                  exact .inr ⟨byte :: new, longer same, readsPairs_other value other known reads⟩

end Loop

section Acceptance

def eui64 (bytes : List UInt8) : List UInt8 :=
  if bytes.length = 6 then bytes.take 3 ++ [0xff, 0xfe] ++ bytes.drop 3 else bytes

theorem Macaddr8.bytes_inj {m n : Macaddr8} (same : m.bytes = n.bytes) : m = n := by
  cases m
  cases n
  simpa [Macaddr8.bytes] using same

theorem macaddr8OfBytes_iff {bytes : List UInt8} {m : Macaddr8} :
    macaddr8OfBytes bytes = .ok m ↔
      (bytes.length = 6 ∨ bytes.length = 8) ∧ m.bytes = eui64 bytes := by
  constructor
  · intro made
    unfold macaddr8OfBytes at made
    split at made
    · injection made with same
      exact ⟨.inl rfl, by rw [← same]; rfl⟩
    · injection made with same
      exact ⟨.inr rfl, by rw [← same]; rfl⟩
    · cases made
  · rintro ⟨count | count, same⟩
    · match bytes, count with
      | [a, b, c, d, e, f], _ =>
          exact congrArg Except.ok (Macaddr8.bytes_inj (n := m) same.symm)
    · match bytes, count with
      | [a, b, c, d, e, f, g, h], _ =>
          exact congrArg Except.ok (Macaddr8.bytes_inj (n := m) same.symm)

def AcceptedMacaddr8 : List Char → List UInt8 → Prop :=
  PairsThen fun separator back => back.all isSpace = true ∨ StrayTail separator back

theorem dropWhile_pairs {separator : Char} {front pairs back : List Char} {bytes : List UInt8}
    (spaces : front.all isSpace = true) (hexPairs : HexPairs separator pairs bytes) :
    (front ++ pairs ++ back).dropWhile isSpace = pairs ++ back := by
  obtain ⟨first, rest, rfl, plain, _⟩ := hexPairs.head_plain
  rw [List.append_assoc, List.dropWhile_append_of_pos (List.all_eq_true.mp spaces),
    List.cons_append, List.dropWhile_cons_of_neg (by rw [plain]; exact Bool.false_ne_true)]

theorem AcceptedMacaddr8.read {text : List Char} {bytes : List UInt8} (accepted : AcceptedMacaddr8 text bytes) :
    macaddr8Loop (text.dropWhile isSpace) none [] = .ok bytes := by
  obtain ⟨⟨separator, front, pairs, back, isSeparator, spaces, hexPairs, ending, rfl⟩, count⟩ :=
    accepted
  rw [dropWhile_pairs spaces hexPairs]
  exact macaddr8Loop_of_pairs hexPairs isSeparator (.inl rfl) count ending

theorem accepted_of_read {text : List Char} {bytes : List UInt8}
    (read : macaddr8Loop (text.dropWhile isSpace) none [] = .ok bytes)
    (count : bytes.length = 6 ∨ bytes.length = 8) : AcceptedMacaddr8 text bytes := by
  have unused : ∀ used, (none : Option Char) = some used → isSpacer used = true := by
    rintro used ⟨⟩
  refine ⟨?_, count⟩
  rcases readsPairs_of_macaddr8Loop unused read count with
    ⟨_, rfl⟩ | ⟨new, rfl, separator, pairs, back, isSeparator, _, hexPairs, ending, rest⟩
  · rcases count with count | count
    · cases count
    · cases count
  · refine ⟨separator, text.takeWhile isSpace, pairs, back, isSeparator, List.all_takeWhile,
      hexPairs, ending, ?_⟩
    rw [List.append_assoc, ← rest, List.takeWhile_append_dropWhile]

theorem macaddr8OfText_iff {text : List Char} {m : Macaddr8} :
    macaddr8OfText text = .ok m ↔ ∃ bytes, AcceptedMacaddr8 text bytes ∧ m.bytes = eui64 bytes := by
  rw [macaddr8OfText, Results.bind_ok]
  constructor
  · rintro ⟨bytes, read, made⟩
    obtain ⟨count, same⟩ := macaddr8OfBytes_iff.mp made
    exact ⟨bytes, accepted_of_read read count, same⟩
  · rintro ⟨bytes, accepted, same⟩
    exact ⟨bytes, accepted.read, macaddr8OfBytes_iff.mpr ⟨accepted.count, same⟩⟩

theorem exists_eui64 {bytes : List UInt8} (count : bytes.length = 6 ∨ bytes.length = 8) :
    ∃ m : Macaddr8, m.bytes = eui64 bytes := by
  rcases count with count | count
  · match bytes, count with
    | [a, b, c, d, e, f], _ => exact ⟨⟨a, b, c, 0xff, 0xfe, d, e, f⟩, rfl⟩
  · match bytes, count with
    | [a, b, c, d, e, f, g, h], _ => exact ⟨⟨a, b, c, d, e, f, g, h⟩, rfl⟩

theorem Macaddr8Grammar.accepted {text : List Char} {bytes : List UInt8}
    (grammar : Macaddr8Grammar text bytes) : AcceptedMacaddr8 text bytes := by
  obtain ⟨⟨separator, front, pairs, back, isSeparator, spaces, hexPairs, clean, same⟩, count⟩ :=
    grammar
  exact ⟨⟨separator, front, pairs, back, isSeparator, spaces, hexPairs, .inl clean, same⟩, count⟩

theorem accepted_of_stray {text : List Char} {bytes : List UInt8}
    (stray : PairsThen StrayTail text bytes) : AcceptedMacaddr8 text bytes := by
  obtain ⟨⟨separator, front, pairs, back, isSeparator, spaces, hexPairs, tail, same⟩, count⟩ := stray
  exact ⟨⟨separator, front, pairs, back, isSeparator, spaces, hexPairs, .inr tail, same⟩, count⟩

theorem HexPairs.unique {separator separator' : Char} {pairs pairs' back back' : List Char}
    {bytes bytes' : List UInt8} (hexPairs : HexPairs separator pairs bytes)
    (hexPairs' : HexPairs separator' pairs' bytes') (isSeparator : isSpacer separator = true)
    (isSeparator' : isSpacer separator' = true) (count : bytes.length = bytes'.length)
    (same : pairs ++ back = pairs' ++ back') : back = back' := by
  induction hexPairs generalizing pairs' bytes' with
  | last _ =>
      cases hexPairs' with
      | last _ => exact (List.cons.inj (List.cons.inj same).2).2
      | joined _ more => exact absurd (Nat.succ.inj count) more.length_pos.ne
      | separated _ more => exact absurd (Nat.succ.inj count) more.length_pos.ne
  | joined _ own ih =>
      cases hexPairs' with
      | last _ => exact absurd (Nat.succ.inj count) own.length_pos.ne'
      | joined _ more => exact ih more (Nat.succ.inj count) (List.cons.inj (List.cons.inj same).2).2
      | separated _ _ =>
          obtain ⟨next, rest, rfl, _, other⟩ := own.head_plain
          have head : next = separator' := (List.cons.inj (List.cons.inj (List.cons.inj same).2).2).1
          rw [head, isSeparator'] at other
          cases other
  | separated _ own ih =>
      cases hexPairs' with
      | last _ => exact absurd (Nat.succ.inj count) own.length_pos.ne'
      | joined _ more =>
          obtain ⟨next, rest, rfl, _, other⟩ := more.head_plain
          have head : separator = next :=
            (List.cons.inj (List.cons.inj (List.cons.inj same).2).2).1
          rw [← head, isSeparator] at other
          cases other
      | separated _ more =>
          exact ih more (Nat.succ.inj count)
            (List.cons.inj (List.cons.inj (List.cons.inj same).2).2).2

theorem StrayTail.head {separator : Char} (isSeparator : isSpacer separator = true)
    {back : List Char} (stray : StrayTail separator back) :
    ∃ first rest, back = first :: rest ∧ isSpace first = false := by
  cases stray with
  | separator _ => exact ⟨_, _, rfl, spacer_not_space isSeparator⟩
  | single plain _ => exact ⟨_, _, rfl, plain⟩
  | behind _ => exact ⟨_, _, rfl, spacer_not_space isSeparator⟩

theorem not_stray_of_grammar {text : List Char} {bytes bytes' : List UInt8}
    (grammar : Macaddr8Grammar text bytes) : ¬ PairsThen StrayTail text bytes' := by
  intro stray
  have same : bytes = bytes' :=
    Except.ok.inj (grammar.accepted.read.symm.trans (accepted_of_stray stray).read)
  obtain ⟨⟨separator, front, pairs, back, isSeparator, spaces, hexPairs, clean, rfl⟩, _⟩ := grammar
  obtain ⟨⟨separator', front', pairs', back', isSeparator', spaces', hexPairs', tail, texts⟩, _⟩ :=
    stray
  have behind : pairs ++ back = pairs' ++ back' := by
    rw [← dropWhile_pairs spaces hexPairs, texts, dropWhile_pairs spaces' hexPairs']
  have backs := hexPairs.unique hexPairs' isSeparator isSeparator' (congrArg _ same) behind
  obtain ⟨first, rest, rfl, plain⟩ := tail.head isSeparator'
  rw [backs, List.all_cons, plain] at clean
  cases clean

section RoundTrip

theorem hex2ToUchar_hex02 (byte : UInt8) :
    hex2ToUchar (Nat.digitChar (byte.toNat / 16)) (Nat.digitChar (byte.toNat % 16)) = .ok byte := by
  have small := byte.toNat_lt
  rw [hex2ToUchar, hexDigit_digitChar (by omega), hexDigit_digitChar (by omega)]
  change Except.ok (UInt8.ofNat (byte.toNat / 16 * 16 + byte.toNat % 16)) = Except.ok byte
  have whole : byte.toNat / 16 * 16 + byte.toNat % 16 = byte.toNat := by omega
  rw [whole, UInt8.ofNat_toNat]

theorem macaddr8Text_grammar (m : Macaddr8) : Macaddr8Grammar (macaddr8Text m) m.bytes := by
  have pairs : HexPairs ':' (macaddr8Text m) m.bytes :=
    .separated (hex2ToUchar_hex02 m.a) (.separated (hex2ToUchar_hex02 m.b)
      (.separated (hex2ToUchar_hex02 m.c) (.separated (hex2ToUchar_hex02 m.d)
        (.separated (hex2ToUchar_hex02 m.e) (.separated (hex2ToUchar_hex02 m.f)
          (.separated (hex2ToUchar_hex02 m.g) (.last (hex2ToUchar_hex02 m.h))))))))
  exact ⟨⟨':', [], macaddr8Text m, [], rfl, rfl, pairs, rfl, (List.append_nil _).symm⟩, .inr rfl⟩

theorem macaddr8OfText_text (m : Macaddr8) : macaddr8OfText (macaddr8Text m) = .ok m :=
  macaddr8OfText_iff.mpr ⟨m.bytes, (macaddr8Text_grammar m).accepted, rfl⟩

end RoundTrip

/-- Exactly the texts of the grammar are accepted, with their bytes. -/
def MeetsGrammar (text : List Char) : Prop :=
  ∀ m, macaddr8OfText text = .ok m ↔ ∃ bytes, Macaddr8Grammar text bytes ∧ m.bytes = eui64 bytes

theorem meetsGrammar_of_clean {text : List Char} (clean : ¬ StrayEnd text) : MeetsGrammar text := by
  intro m
  rw [macaddr8OfText_iff]
  constructor
  · rintro ⟨bytes, ⟨⟨separator, front, pairs, back, isSeparator, spaces, hexPairs, ending, same⟩,
      count⟩, address⟩
    have inside : back.all isSpace = true := ending.resolve_right fun tail =>
      clean ⟨bytes, ⟨separator, front, pairs, back, isSeparator, spaces, hexPairs, tail, same⟩, count⟩
    exact ⟨bytes, ⟨⟨separator, front, pairs, back, isSeparator, spaces, hexPairs, inside, same⟩,
      count⟩, address⟩
  · rintro ⟨bytes, grammar, address⟩
    exact ⟨bytes, grammar.accepted, address⟩

theorem not_meetsGrammar_of_stray {text : List Char} (strayEnd : StrayEnd text) :
    ¬ MeetsGrammar text := by
  obtain ⟨bytes, stray⟩ := strayEnd
  obtain ⟨m, same⟩ := exists_eui64 stray.count
  intro meets
  obtain ⟨_, grammar, _⟩ := (meets m).mp
    (macaddr8OfText_iff.mpr ⟨bytes, accepted_of_stray stray, same⟩)
  exact not_stray_of_grammar grammar stray

/-- Just the texts with a stray end are accepted against the grammar, and what is printed is read
back. -/
theorem meetsGrammar_iff (text : List Char) :
    (MeetsGrammar text ↔ ¬ StrayEnd text) ∧ ∀ m, macaddr8OfText (macaddr8Text m) = .ok m :=
  ⟨⟨fun meets strayEnd => not_meetsGrammar_of_stray strayEnd meets, meetsGrammar_of_clean⟩,
    macaddr8OfText_text⟩

theorem macaddr8_dangling : ¬ MeetsGrammar "08:00:2b:01:02:03:".toList := by
  have pairs : HexPairs ':' "08:00:2b:01:02:03".toList [0x08, 0x00, 0x2b, 0x01, 0x02, 0x03] :=
    .separated rfl (.separated rfl (.separated rfl (.separated rfl (.separated rfl (.last rfl)))))
  exact not_meetsGrammar_of_stray ⟨_, ⟨':', [], _, [':'], rfl, rfl, pairs, .separator rfl, rfl⟩,
    .inl rfl⟩

end Acceptance

end PqAsync
