import PqAsync.NetText4

/-!
The texts that IPv6 addresses are printed as: all words, words on both sides of a run of zeros, and
an IPv4 address behind such a run.
-/

namespace PqAsync

open Results

section Words

def bytesOf (words : List Nat) : List UInt8 := words.flatMap wordBytes

theorem wordBytes_join (high low : UInt8) :
    wordBytes (high.toNat <<< 8 ||| low.toNat) = [high, low] := by
  have small : low.toNat < 2 ^ 8 := low.toNat_lt
  have value : high.toNat <<< 8 ||| low.toNat = high.toNat * 256 + low.toNat := by
    rw [← Nat.shiftLeft_add_eq_or_of_lt small, Nat.shiftLeft_eq]
  have top : (high.toNat * 256 + low.toNat) >>> 8 = high.toNat := by
    rw [Nat.shiftRight_eq_div_pow]
    omega
  have bottom : UInt8.ofNat (high.toNat * 256 + low.toNat) = low := by
    apply UInt8.toNat_inj.mp
    rw [UInt8.toNat_ofNat']
    omega
  rw [value, wordBytes, top, bottom, UInt8.ofNat_toNat]

theorem wordsOf_cons (high low : UInt8) (src : List UInt8) :
    wordsOf (high :: low :: src) = (high.toNat <<< 8 ||| low.toNat) :: wordsOf src := by
  rw [wordsOf]

theorem bytesOf_wordsOf {src : List UInt8} {n : Nat} (even : src.length = 2 * n) :
    bytesOf (wordsOf src) = src := by
  induction n generalizing src with
  | zero =>
      rw [List.length_eq_zero_iff.mp even]
      rfl
  | succ n ih =>
      match src, even with
      | high :: low :: src, even =>
          rw [List.length_cons, List.length_cons] at even
          rw [wordsOf_cons, bytesOf, List.flatMap_cons, wordBytes_join, ← bytesOf, ih (by omega)]
          rfl

theorem length_bytesOf (words : List Nat) : (bytesOf words).length = 2 * words.length := by
  induction words with
  | nil => rfl
  | cons word words ih =>
      rw [bytesOf, List.flatMap_cons, List.length_append, ← bytesOf, ih, List.length_cons]
      change 2 + _ = _
      omega

theorem length_wordsOf {src : List UInt8} {n : Nat} (even : src.length = 2 * n) :
    (wordsOf src).length = n := by
  have bytes := length_bytesOf (wordsOf src)
  rw [bytesOf_wordsOf even, even] at bytes
  omega

theorem wordsOf_lt {src : List UInt8} {n : Nat} (even : src.length = 2 * n) :
    ∀ word ∈ wordsOf src, word < 2 ^ 16 := by
  induction n generalizing src with
  | zero =>
      rw [List.length_eq_zero_iff.mp even]
      exact List.forall_mem_nil _
  | succ n ih =>
      match src, even with
      | high :: low :: src, even =>
          rw [List.length_cons, List.length_cons] at even
          rw [wordsOf_cons]
          refine List.forall_mem_cons.mpr ⟨?_, ih (by omega)⟩
          have small : low.toNat < 2 ^ 8 := low.toNat_lt
          have large : high.toNat < 2 ^ 8 := high.toNat_lt
          rw [← Nat.shiftLeft_add_eq_or_of_lt small, Nat.shiftLeft_eq]
          omega

theorem bytesOf_append (front after : List Nat) :
    bytesOf (front ++ after) = bytesOf front ++ bytesOf after := List.flatMap_append

theorem bytesOf_replicate (n : Nat) : bytesOf (List.replicate n 0) = List.replicate (2 * n) 0 := by
  induction n with
  | zero => rfl
  | succ n ih =>
      rw [List.replicate_succ, bytesOf, List.flatMap_cons, ← bytesOf, ih, Nat.mul_succ,
        Nat.add_comm (2 * n), List.replicate_add]
      rfl

end Words

section Runs

def IsRun (words : List Nat) (run : ZeroRun) : Prop :=
  ∃ front after, words = front ++ (List.replicate run.len 0 ++ after) ∧ front.length = run.base

def EndsIn (words : List Nat) (run : ZeroRun) : Prop :=
  ∃ front, words = front ++ List.replicate run.len 0 ∧ front.length = run.base

theorem EndsIn.isRun {words : List Nat} {run : ZeroRun} (ends : EndsIn words run) : IsRun words run := by
  obtain ⟨front, same, base⟩ := ends
  exact ⟨front, [], by rw [List.append_nil, same], base⟩

theorem IsRun.snoc {words : List Nat} {run : ZeroRun} (own : IsRun words run) (word : Nat) :
    IsRun (words ++ [word]) run := by
  obtain ⟨front, after, same, base⟩ := own
  exact ⟨front, after ++ [word], by rw [same]; simp only [List.append_assoc], base⟩

theorem betterRun_isRun {words : List Nat} {cur best : Option ZeroRun}
    (current : ∀ run ∈ cur, IsRun words run) (before : ∀ run ∈ best, IsRun words run) :
    ∀ run ∈ betterRun cur best, IsRun words run := by
  intro run member
  cases cur with
  | none => exact before run member
  | some cur =>
      cases best with
      | none => exact current run member
      | some best =>
          rw [betterRun] at member
          split at member
          · exact current run member
          · exact before run member

theorem findRun_isRun {rest done : List Nat} {cur best : Option ZeroRun}
    (current : ∀ run ∈ cur, EndsIn done run) (before : ∀ run ∈ best, IsRun done run) :
    ∀ run ∈ findRun rest done.length cur best, IsRun (done ++ rest) run := by
  induction rest generalizing done cur best with
  | nil =>
      rw [List.append_nil]
      exact betterRun_isRun (fun run member => (current run member).isRun) before
  | cons word rest ih =>
      have count : done.length + 1 = (done ++ [word]).length := by
        rw [List.length_append]
        rfl
      rw [findRun, count, List.append_cons done word rest]
      split
      · next zero =>
          refine ih ?_ fun run member => (before run member).snoc word
          rintro run ⟨⟩
          rw [zero]
          cases cur with
          | none => exact ⟨done, rfl, rfl⟩
          | some cur =>
              obtain ⟨front, same, base⟩ := current cur rfl
              refine ⟨front, ?_, base⟩
              rw [same, List.append_assoc, ← List.replicate_succ']
              rfl
      · have better := betterRun_isRun (fun run member => (current run member).isRun) before
        exact ih (by simp) fun run member => (better run member).snoc word

theorem bestRun_isRun {words : List Nat} {best : ZeroRun} (found : bestRun words = some best) :
    2 ≤ best.len ∧ IsRun words best := by
  rw [bestRun] at found
  split at found
  · cases found
  · next run searched =>
      split at found
      · cases found
      · next long =>
          cases found
          have runs := @findRun_isRun words [] none none (by simp) (by simp)
          exact ⟨Nat.le_of_not_lt long, runs best searched⟩

end Runs

section Printing

def coloned (words : List Nat) : List Char := words.flatMap fun word => ':' :: Nat.toDigits 16 word

def joined : List Nat → List Char
  | [] => []
  | word :: words => Nat.toDigits 16 word ++ coloned words

theorem length_word {word : Nat} (small : word < 2 ^ 16) : (Nat.toDigits 16 word).length ≤ 4 :=
  (Nat.length_toDigits_le_iff (by decide) (by decide)).mpr small

theorem coloned_cons (word : Nat) (words : List Nat) :
    coloned (word :: words) = ':' :: joined (word :: words) := rfl

theorem length_coloned {words : List Nat} (small : ∀ word ∈ words, word < 2 ^ 16) :
    (coloned words).length ≤ 5 * words.length := by
  induction words with
  | nil => exact Nat.le_refl 0
  | cons word words ih =>
      obtain ⟨own, others⟩ := List.forall_mem_cons.mp small
      have short := length_word own
      have rest := ih others
      rw [coloned, List.flatMap_cons, ← coloned, List.length_append, List.length_cons, List.length_cons]
      omega

theorem putChar_fits {size : Nat} {printed : List Char} (room : printed.length < size) (c : Char) :
    putChar size printed c = .ok (printed ++ [c]) := if_pos room

def PrintsWord (words : List Nat) (best : Option ZeroRun) (i : Nat) : Prop :=
  insideRun best i = false ∧ ¬(i = 6 ∧ encapsulates words best = true)

variable {src : List UInt8} {words : List Nat} {best : Option ZeroRun}

theorem formatWords_word {i : Nat} (prints : PrintsWord words best i) {word : Nat}
    (small : word < 2 ^ 16) (later : i ≠ 0) {tmp : List Char} (room : tmp.length + 5 < netTextSize)
    (more : List Nat) :
    formatWords src words best (word :: more) i tmp =
      formatWords src words best more (i + 1) (tmp ++ ':' :: Nat.toDigits 16 word) := by
  have short := length_word small
  obtain ⟨outside, plain⟩ := prints
  have digits : sprintf netTextSize (tmp ++ [':']) (Nat.toDigits 16 word) =
      .ok (tmp ++ ':' :: Nat.toDigits 16 word) := by
    rw [sprintf_fits (by rw [List.length_append, List.length_singleton]; omega), List.append_assoc,
      List.singleton_append]
  rw [formatWords, outside, if_neg Bool.false_ne_true, if_pos later, putChar_fits (by omega), ok_bind]
  dsimp only
  rw [if_neg plain, digits, ok_bind]

theorem formatWords_coloned {ws : List Nat} (small : ∀ word ∈ ws, word < 2 ^ 16) {i : Nat}
    (prints : ∀ j, i ≤ j → j < i + ws.length → PrintsWord words best j) (later : i ≠ 0)
    {tmp : List Char} (room : tmp.length + 5 * ws.length < netTextSize) (more : List Nat) :
    formatWords src words best (ws ++ more) i tmp =
      formatWords src words best more (i + ws.length) (tmp ++ coloned ws) := by
  induction ws generalizing i tmp with
  | nil =>
      rw [coloned, List.flatMap_nil, List.append_nil]
      rfl
  | cons word ws ih =>
      obtain ⟨own, others⟩ := List.forall_mem_cons.mp small
      have short := length_word own
      rw [List.length_cons] at prints room ⊢
      have written : (tmp ++ ':' :: Nat.toDigits 16 word).length ≤ tmp.length + 5 := by
        rw [List.length_append, List.length_cons]
        omega
      rw [List.cons_append, formatWords_word (prints i (by omega) (by omega)) own later (by omega),
        ih others (fun j behind before => prints j (by omega) (by omega)) (by omega) (by omega),
        List.append_assoc, Nat.add_right_comm]
      rfl

theorem formatWords_joined {ws : List Nat} (small : ∀ word ∈ ws, word < 2 ^ 16)
    (prints : ∀ j < ws.length, PrintsWord words best j) (room : 5 * ws.length < netTextSize)
    (more : List Nat) :
    formatWords src words best (ws ++ more) 0 [] =
      formatWords src words best more ws.length (joined ws) := by
  cases ws with
  | nil => rfl
  | cons word ws =>
      obtain ⟨own, others⟩ := List.forall_mem_cons.mp small
      have short := length_word own
      rw [List.length_cons] at prints room ⊢
      obtain ⟨outside, -⟩ := prints 0 (Nat.succ_pos _)
      have digits : sprintf netTextSize [] (Nat.toDigits 16 word) = .ok (Nat.toDigits 16 word) :=
        sprintf_fits (by rw [List.length_nil]; omega)
      rw [List.cons_append, formatWords, outside, if_neg Bool.false_ne_true, if_neg (not_not.mpr rfl),
        ok_bind]
      dsimp only
      rw [if_neg (by simp), digits, ok_bind,
        formatWords_coloned others (fun j _ before => prints j (by omega)) (by decide) (by omega),
        Nat.add_comm 1]
      rfl

theorem formatWords_inside {run : ZeroRun} {n i : Nat} (behind : run.base < i)
    (before : i + n ≤ run.base + run.len) (tmp : List Char) (more : List Nat) :
    formatWords src words (some run) (List.replicate n 0 ++ more) i tmp =
      formatWords src words (some run) more (i + n) tmp := by
  induction n generalizing i with
  | zero => rfl
  | succ n ih =>
      have inside : insideRun (some run) i = true := decide_eq_true (by omega)
      have started : startsRun (some run) i = false := decide_eq_false (by omega)
      rw [List.replicate_succ, List.cons_append, formatWords, inside, if_pos rfl, started,
        if_neg Bool.false_ne_true, ok_bind]
      dsimp only
      rw [ih (by omega) (by omega), Nat.add_assoc, Nat.add_comm 1]

theorem formatWords_run {run : ZeroRun} (long : 0 < run.len) {tmp : List Char}
    (room : tmp.length < netTextSize) (more : List Nat) :
    formatWords src words (some run) (List.replicate run.len 0 ++ more) run.base tmp =
      formatWords src words (some run) more (run.base + run.len) (tmp ++ [':']) := by
  obtain ⟨len, same⟩ := Nat.exists_eq_succ_of_ne_zero (Nat.ne_of_gt long)
  have inside : insideRun (some run) run.base = true := decide_eq_true (by omega)
  have started : startsRun (some run) run.base = true := decide_eq_true rfl
  rw [same, List.replicate_succ, List.cons_append, formatWords, inside, if_pos rfl, started, if_pos rfl,
    putChar_fits room, ok_bind]
  dsimp only
  rw [formatWords_inside (by omega) (by omega), Nat.add_right_comm]
  rfl

theorem decoct_dotted {size : Nat} {octet : UInt8} {octets : List UInt8} {printed : List Char}
    (room : printed.length + 4 * octets.length + 6 ≤ size) :
    decoct size (octet :: octets) (size - printed.length) printed =
      .ok (some (printed ++ dotted (octet :: octets))) := by
  have wide : "255.".length + 1 = 5 := rfl
  induction octets generalizing octet printed with
  | nil =>
      have short := length_octet octet
      rw [List.length_nil] at room
      rw [decoct, if_neg (by omega), sprintf_fits (by omega), ok_bind, if_neg (not_not.mpr rfl), ok_bind]
      dsimp only
      rw [decoct, dotted_singleton]
  | cons next octets ih =>
      have short := length_octet octet
      rw [List.length_cons] at room
      have point : sprintf size (printed ++ Nat.toDigits 10 octet.toNat) ['.'] =
          .ok (printed ++ Nat.toDigits 10 octet.toNat ++ ['.']) :=
        sprintf_fits (by rw [List.length_append, List.length_singleton]; omega)
      have written : (printed ++ Nat.toDigits 10 octet.toNat ++ ['.']).length =
          printed.length + (Nat.toDigits 10 octet.toNat).length + 1 := by
        rw [List.length_append, List.length_append, List.length_singleton]
      have left : size - printed.length -
          ((printed ++ Nat.toDigits 10 octet.toNat ++ ['.']).length - printed.length) =
          size - (printed ++ Nat.toDigits 10 octet.toNat ++ ['.']).length := by
        omega
      rw [decoct, if_neg (by omega), sprintf_fits (by omega), ok_bind, if_pos (List.cons_ne_nil _ _),
        point, ok_bind]
      dsimp only
      rw [left, ih (by omega), dotted_cons octet, pointed_cons]
      simp only [List.append_assoc, List.singleton_append]

theorem formatWords_embedded (outside : insideRun best 6 = false)
    (embeds : encapsulates words best = true) {octet : UInt8} {octets : List UInt8}
    (four : (src.drop 12).take 4 = octet :: octets) {tmp : List Char}
    (room : tmp.length + 4 * octets.length + 7 ≤ netTextSize) (word : Nat) (more : List Nat) :
    formatWords src words best (word :: more) 6 tmp =
      .ok (some (tmp ++ ':' :: dotted (octet :: octets))) := by
  have fits : (tmp ++ [':']).length + 4 * octets.length + 6 ≤ netTextSize := by
    rw [List.length_append, List.length_singleton]
    omega
  rw [formatWords, outside, if_neg Bool.false_ne_true, if_pos (by decide), putChar_fits (by omega),
    ok_bind]
  dsimp only
  rw [if_pos ⟨rfl, embeds⟩, four, decoct_dotted fits, List.append_assoc]
  rfl

end Printing

section Forms

inductive Shows (src : List UInt8) : List Char → Prop
  | whole (words : List Nat) (small : ∀ word ∈ words, word < 2 ^ 16) (eight : words.length = 8)
      (bytes : src = bytesOf words) : Shows src (joined words)
  | compressed (front : List Nat) (zeros : Nat) (after : List Nat)
      (small : ∀ word ∈ front ++ after, word < 2 ^ 16)
      (eight : front.length + zeros + after.length = 8) (gap : 0 < zeros)
      (bytes : src = bytesOf front ++ (List.replicate (2 * zeros) 0 ++ bytesOf after)) :
      Shows src (joined front ++ ':' :: ':' :: joined after)
  | embedded (zeros : Nat) (words : List Nat) (octet : UInt8) (octets : List UInt8)
      (small : ∀ word ∈ words, word < 2 ^ 16) (six : zeros + words.length = 6) (gap : 0 < zeros)
      (three : octets.length = 3)
      (bytes : src = List.replicate (2 * zeros) 0 ++ (bytesOf words ++ octet :: octets)) :
      Shows src (':' :: coloned words ++ ':' :: dotted (octet :: octets))

theorem length_joined {words : List Nat} (small : ∀ word ∈ words, word < 2 ^ 16) :
    (joined words).length ≤ 5 * words.length := by
  cases words with
  | nil => exact Nat.le_refl 0
  | cons word words =>
      have short := length_coloned small
      rw [coloned_cons, List.length_cons] at short
      omega

theorem Shows.length {src : List UInt8} {text : List Char} (own : Shows src text) :
    text.length ≤ 42 := by
  cases own with
  | whole words small eight bytes =>
      have short := length_joined small
      omega
  | compressed front zeros after small eight gap bytes =>
      obtain ⟨left, right⟩ := List.forall_mem_append.mp small
      have shortFront := length_joined left
      have shortAfter := length_joined right
      rw [List.length_append, List.length_cons, List.length_cons]
      omega
  | embedded zeros words octet octets small six gap three bytes =>
      have shortWords := length_coloned small
      have shortDotted := length_dotted octet octets
      rw [List.cons_append, List.length_cons, List.length_append, List.length_cons]
      omega

variable {src : List UInt8}

theorem formatWords_whole (even : src.length = 16) :
    ∃ tmp, formatWords src (wordsOf src) none (wordsOf src) 0 [] = .ok (some tmp) ∧ Shows src tmp := by
  have eight := length_wordsOf (n := 8) even
  have small := wordsOf_lt (n := 8) even
  have size : netTextSize = 50 := rfl
  have written := @formatWords_joined src (wordsOf src) none (wordsOf src) small
    (fun j _ => ⟨rfl, fun embeds => Bool.false_ne_true embeds.2⟩) (by omega) []
  rw [List.append_nil] at written
  refine ⟨joined (wordsOf src), written, Shows.whole (wordsOf src) small eight ?_⟩
  rw [bytesOf_wordsOf (n := 8) even]

theorem formatWords_compressed (even : src.length = 16) {run : ZeroRun} (long : 2 ≤ run.len)
    {front after : List Nat} (same : wordsOf src = front ++ (List.replicate run.len 0 ++ after))
    (base : front.length = run.base)
    (plain : encapsulates (wordsOf src) (some run) = true → 6 < run.base + run.len) :
    ∃ tmp, formatWords src (wordsOf src) (some run) (wordsOf src) 0 [] = .ok (some tmp) ∧
      Shows src (if endsRun (some run) then tmp ++ [':'] else tmp) := by
  have size : netTextSize = 50 := rfl
  have eight := length_wordsOf (n := 8) even
  have small := wordsOf_lt (n := 8) even
  have bytes := bytesOf_wordsOf (n := 8) even
  rw [same] at eight small bytes
  rw [List.length_append, List.length_append, List.length_replicate] at eight
  rw [bytesOf_append, bytesOf_append, bytesOf_replicate] at bytes
  have smallFront := (List.forall_mem_append.mp small).1
  have smallAfter := (List.forall_mem_append.mp (List.forall_mem_append.mp small).2).2
  have shortFront := length_joined smallFront
  have before : ∀ j < front.length, PrintsWord (wordsOf src) (some run) j := by
    intro j inside
    refine ⟨decide_eq_false (by omega), fun embeds => ?_⟩
    have first := of_decide_eq_true embeds.2
    omega
  have behind : ∀ j, run.base + run.len ≤ j → PrintsWord (wordsOf src) (some run) j := by
    intro j outside
    refine ⟨decide_eq_false (by omega), fun embeds => ?_⟩
    have late := plain embeds.2
    omega
  have fits : (joined front ++ [':']).length + 5 * after.length < netTextSize := by
    rw [List.length_append, List.length_singleton]
    omega
  refine ⟨joined front ++ [':'] ++ coloned after, ?_, ?_⟩
  · have last := @formatWords_coloned src (wordsOf src) (some run) after smallAfter (run.base + run.len)
      (fun j outside _ => behind j outside) (by omega) _ fits []
    rw [List.append_nil] at last
    calc formatWords src (wordsOf src) (some run) (wordsOf src) 0 []
        = formatWords src (wordsOf src) (some run) (front ++ (List.replicate run.len 0 ++ after)) 0 [] := by
          rw [← same]
      _ = formatWords src (wordsOf src) (some run) (List.replicate run.len 0 ++ after) run.base
            (joined front) := by
          rw [formatWords_joined smallFront before (by omega), base]
      _ = formatWords src (wordsOf src) (some run) after (run.base + run.len) (joined front ++ [':']) :=
          formatWords_run (by omega) (by omega) after
      _ = .ok (some (joined front ++ [':'] ++ coloned after)) := by
          rw [last]
          rfl
  · have shown := @Shows.compressed src front run.len after (List.forall_mem_append.mpr ⟨smallFront, smallAfter⟩)
      (by omega) (by omega) bytes.symm
    cases after with
    | nil =>
        have ends : endsRun (some run) = true := decide_eq_true (by rw [List.length_nil] at eight; omega)
        rw [ends, if_pos rfl, List.append_assoc, List.append_assoc]
        exact shown
    | cons word after =>
        have unended : endsRun (some run) = false :=
          decide_eq_false (by rw [List.length_cons] at eight; omega)
        rw [unended, if_neg Bool.false_ne_true, List.append_assoc]
        exact shown

theorem exists_embedded (even : src.length = 16) {len : Nat} {after : List Nat}
    (same : wordsOf src = List.replicate len 0 ++ after) (short : len ≤ 6) :
    ∃ words word more octet octets,
      wordsOf src = List.replicate len 0 ++ (words ++ word :: more) ∧ words.length = 6 - len ∧
      octets.length = 3 ∧ src = List.replicate (2 * len) 0 ++ (bytesOf words ++ octet :: octets) := by
  have eight := length_wordsOf (n := 8) even
  have bytes := bytesOf_wordsOf (n := 8) even
  rw [same, List.length_append, List.length_replicate] at eight
  obtain ⟨words, last, rfl, six⟩ : ∃ words last, after = words ++ last ∧ words.length = 6 - len :=
    ⟨after.take (6 - len), after.drop (6 - len), (List.take_append_drop _ _).symm,
      List.length_take_of_le (by omega)⟩
  rw [List.length_append] at eight
  rw [same, bytesOf_append, bytesOf_append, bytesOf_replicate] at bytes
  have count := length_bytesOf last
  obtain ⟨word, more, rfl⟩ := List.exists_cons_of_ne_nil (List.ne_nil_of_length_pos
    (show 0 < last.length by omega))
  obtain ⟨octet, octets, four⟩ := List.exists_cons_of_ne_nil (List.ne_nil_of_length_pos
    (show 0 < (bytesOf (word :: more)).length by omega))
  rw [four] at bytes count
  rw [List.length_cons] at count
  exact ⟨words, word, more, octet, octets, same, six, by omega, bytes.symm⟩

theorem formatWords_ipv4 (even : src.length = 16) {run : ZeroRun} (long : 2 ≤ run.len)
    {front after : List Nat} (same : wordsOf src = front ++ (List.replicate run.len 0 ++ after))
    (base : front.length = run.base) (embeds : encapsulates (wordsOf src) (some run) = true)
    (short : run.base + run.len ≤ 6) :
    ∃ tmp, formatWords src (wordsOf src) (some run) (wordsOf src) 0 [] = .ok (some tmp) ∧
      Shows src (if endsRun (some run) then tmp ++ [':'] else tmp) := by
  have size : netTextSize = 50 := rfl
  have first : run.base = 0 := (of_decide_eq_true embeds).1
  rw [first] at base short
  rw [List.length_eq_zero_iff.mp base, List.nil_append] at same
  obtain ⟨words, word, more, octet, octets, parts, six, three, whole⟩ :=
    exists_embedded even same (by omega)
  have small := wordsOf_lt (n := 8) even
  rw [parts] at small
  have smallWords := (List.forall_mem_append.mp (List.forall_mem_append.mp small).2).1
  have shortWords := length_coloned smallWords
  have tail : (src.drop 12).take 4 = octet :: octets := by
    have twelve : (List.replicate (2 * run.len) 0 ++ bytesOf words).length = 12 := by
      rw [List.length_append, List.length_replicate, length_bytesOf]
      omega
    rw [whole, ← List.append_assoc, List.drop_left' twelve]
    exact List.take_of_length_le (by rw [List.length_cons, three])
  have outside : insideRun (some run) 6 = false := decide_eq_false (by omega)
  have prints : ∀ j, run.len ≤ j → j < run.len + words.length → PrintsWord (wordsOf src) (some run) j :=
    fun j behind before => ⟨decide_eq_false (by omega), fun embedded => by omega⟩
  have fits : ([':'] ++ coloned words).length + 4 * octets.length + 7 ≤ netTextSize := by
    rw [List.length_append, List.length_singleton]
    omega
  have unended : endsRun (some run) = false := decide_eq_false (by omega)
  refine ⟨[':'] ++ coloned words ++ ':' :: dotted (octet :: octets), ?_, ?_⟩
  · calc formatWords src (wordsOf src) (some run) (wordsOf src) 0 []
        = formatWords src (wordsOf src) (some run)
            (List.replicate run.len 0 ++ (words ++ word :: more)) run.base [] := by
          rw [← parts, first]
      _ = formatWords src (wordsOf src) (some run) (words ++ word :: more) run.len [':'] := by
          rw [formatWords_run (by omega) (by rw [List.length_nil]; omega), first, Nat.zero_add]
          rfl
      _ = formatWords src (wordsOf src) (some run) (word :: more) 6 ([':'] ++ coloned words) := by
          rw [formatWords_coloned smallWords prints (by omega) (by rw [List.length_singleton]; omega)]
          congr 1
          omega
      _ = .ok (some ([':'] ++ coloned words ++ ':' :: dotted (octet :: octets))) :=
          formatWords_embedded outside embeds tail fits word more
  · rw [unended, if_neg Bool.false_ne_true]
    exact Shows.embedded run.len words octet octets smallWords (by omega) (by omega) three whole

theorem formatWords_shows (even : src.length = 16) :
    ∃ tmp, formatWords src (wordsOf src) (bestRun (wordsOf src)) (wordsOf src) 0 [] = .ok (some tmp) ∧
      Shows src (if endsRun (bestRun (wordsOf src)) then tmp ++ [':'] else tmp) := by
  cases found : bestRun (wordsOf src) with
  | none => exact formatWords_whole even
  | some run =>
      obtain ⟨long, front, after, same, base⟩ := bestRun_isRun found
      by_cases embeds : encapsulates (wordsOf src) (some run) = true ∧ run.base + run.len ≤ 6
      · exact formatWords_ipv4 even long same base embeds.1 embeds.2
      · exact formatWords_compressed even long same base fun encapsulated =>
          Nat.lt_of_not_le fun short => embeds ⟨encapsulated, short⟩

theorem copyPrinted_eq {tmp : List Char} (short : tmp.length ≤ 42) {bits : Nat} (inside : bits ≤ 128) :
    copyPrinted tmp bits netTextSize = .ok (some (tmp ++ slashed 128 bits)) := by
  have size : netTextSize = 50 := rfl
  have prefixShort := @length_slashed 128 bits (by omega)
  have copied : ∀ text : List Char, text.length < 50 → (if text.length > netTextSize then pure none
      else do
        let dst ← sprintf netTextSize [] text
        return some dst) = Except.ok (some text) := by
    intro text room
    rw [if_neg (by omega), sprintf_fits (by rw [List.length_nil]; omega)]
    rfl
  rw [copyPrinted, sprintf_fits (by rw [List.length_nil]; omega), ok_bind, List.append_nil]
  rw [slashed] at prefixShort ⊢
  by_cases full : bits = 128
  · rw [if_neg (not_not.mpr full), if_neg (not_not.mpr full), ok_bind, List.append_nil]
    exact copied tmp (by omega)
  · rw [if_pos full] at prefixShort
    rw [if_pos full, if_pos full, sprintf_fits (by omega), ok_bind]
    exact copied _ (by rw [List.length_append]; omega)

theorem inetNetNtopIpv6_eq (even : src.length = 16) {bits : Nat} (inside : bits ≤ 128) :
    ∃ text, Shows src text ∧
      inetNetNtopIpv6 src bits netTextSize = .ok (some (text ++ slashed 128 bits)) := by
  obtain ⟨tmp, formatted, own⟩ := formatWords_shows even
  have all : src.take 16 = src := List.take_of_length_le (Nat.le_of_eq even)
  have short := own.length
  refine ⟨_, own, ?_⟩
  rw [inetNetNtopIpv6, if_neg (Nat.not_lt.mpr inside), all]
  dsimp only
  rw [formatted, ok_bind]
  dsimp only
  cases ends : endsRun (bestRun (wordsOf src)) with
  | true =>
      rw [ends, if_pos rfl, List.length_append] at short
      have room : tmp.length < netTextSize := Nat.lt_of_lt_of_le (Nat.lt_of_add_right_lt
        (Nat.lt_succ_of_le short)) (by decide)
      rw [if_pos rfl, if_pos rfl, putChar_fits room, ok_bind]
      exact copyPrinted_eq (by rw [List.length_append]; exact short) inside
  | false =>
      rw [ends, if_neg Bool.false_ne_true] at short
      rw [if_neg Bool.false_ne_true, if_neg Bool.false_ne_true, ok_bind]
      exact copyPrinted_eq short inside

end Forms

end PqAsync
