import PqAsync.Library.Results
import PqAsync.NetTextCore

/-!
The parsers of IPv4 addresses read no character behind the end of their text, whatever the text is.
-/

namespace PqAsync

open Results

def Ahead (ch : Char) (src : Cursor) : Prop := ch ≠ '\x00' → ∃ rest, src = some rest

theorem ahead_some (ch : Char) (src : List Char) : Ahead ch (some src) := fun _ => ⟨src, rfl⟩

theorem ahead_end : Ahead '\x00' none := fun text => absurd rfl text

theorem Ahead.digit {ch : Char} {src : Cursor} (ahead : Ahead ch src) (digit : ch.isDigit = true) :
    ∃ rest, src = some rest := by
  apply ahead
  rintro rfl
  exact absurd digit (by decide)

def Stopped (found : Option (Char × Cursor × List UInt8)) : Prop :=
  ∀ stop ∈ found, Ahead stop.1 stop.2.1

theorem next_avoids (src : List Char) :
    Avoids .outOfBounds (fun found => Ahead found.1 found.2) (Cursor.next (some src)) := by
  cases src with
  | nil => exact ahead_end
  | cons ch src => exact ahead_some ch src

theorem octetDigits_ahead {tmp : Nat} {ch : Char} {src : List Char} :
    ∀ stop ∈ octetDigits tmp ch src, Ahead stop.2.1 stop.2.2 := by
  induction src generalizing tmp ch with
  | nil =>
      intro stop found
      rw [octetDigits] at found
      split at found
      · cases found
      · cases found
        exact ahead_end
  | cons next src ih =>
      intro stop found
      rw [octetDigits] at found
      split at found
      · cases found
      · split at found
        · exact ih stop found
        · cases found
          exact ahead_some next src

theorem readOctet_avoids {ch : Char} {src : Cursor} (ahead : Ahead ch src) (digit : ch.isDigit = true) :
    Avoids .outOfBounds (fun found => ∀ stop ∈ found, Ahead stop.2.1 stop.2.2) (readOctet ch src) := by
  obtain ⟨rest, rfl⟩ := ahead.digit digit
  exact octetDigits_ahead

theorem bitsDigits_avoids {bits : Nat} {ch : Char} {src : List Char} :
    Avoids .outOfBounds (fun _ => True) (bitsDigits bits ch src) := by
  induction src generalizing bits ch with
  | nil =>
      rw [bitsDigits]
      split
      · exact WireError.noConfusion
      · trivial
  | cons next src ih =>
      rw [bitsDigits]
      split
      · exact WireError.noConfusion
      · split
        · exact ih
        · trivial

theorem prefixLength_avoids {ch : Char} {src : Cursor} (ahead : Ahead ch src) (written : Nat) :
    Avoids .outOfBounds (fun _ => True) (prefixLength ch src written) := by
  rw [prefixLength]
  split
  · next slash =>
      obtain ⟨rest, rfl⟩ := ahead (by rw [slash]; decide)
      rw [Cursor.read, ok_bind]
      dsimp only
      split
      · next digit =>
          cases rest with
          | nil => exact absurd digit.1 (by decide)
          | cons first rest =>
              rw [Cursor.next, ok_bind]
              refine bitsDigits_avoids.bind fun found _ => ?_
              split
              · trivial
              · split <;> trivial
      · trivial
  · split <;> trivial

theorem mantissa_step_avoids {size : Nat}
    (later : ∀ left, size = left + 1 → ∀ src dst, Avoids .outOfBounds Stopped (mantissa left (some src) dst))
    (src : List Char) (dst : List UInt8) : Avoids .outOfBounds Stopped (mantissa size (some src) dst) := by
  rw [mantissa.eq_def]
  refine (next_avoids src).bind ?_
  rintro ⟨ch, rest⟩ ahead
  dsimp only
  split
  · rintro stop ⟨⟩
    exact ahead
  · next digit =>
      refine (readOctet_avoids ahead (by simpa using digit)).bind ?_
      rintro (_ | ⟨tmp, ch, src⟩) found
      · exact nofun
      · have more : Ahead ch src := found _ rfl
        cases size with
        | zero => exact nofun
        | succ left =>
            dsimp only
            split
            · rintro stop ⟨⟩
              exact more
            · split
              · exact nofun
              · next point =>
                  obtain ⟨rest, rfl⟩ := more (by rw [not_not.mp point]; decide)
                  exact later left rfl rest _

theorem mantissa_avoids (size : Nat) (src : List Char) (dst : List UInt8) :
    Avoids .outOfBounds Stopped (mantissa size (some src) dst) := by
  induction size generalizing src dst with
  | zero =>
      refine mantissa_step_avoids ?_ src dst
      exact fun left none => absurd none.symm (Nat.succ_ne_zero left)
  | succ size ih =>
      refine mantissa_step_avoids ?_ src dst
      rintro left ⟨⟩
      exact ih

theorem inetNetPtonIpv4_avoids (src : List Char) :
    Avoids .outOfBounds (fun _ => True) (inetNetPtonIpv4 src) := by
  refine (mantissa_avoids 4 src []).bind ?_
  rintro (_ | ⟨ch, rest, dst⟩) found
  · trivial
  · refine (prefixLength_avoids (found _ rfl) dst.length).bind ?_
    rintro (_ | bits) _
    · trivial
    · dsimp only
      split
      · trivial
      · split
        · trivial
        · split <;> trivial

theorem dottedOctets_step_avoids {size : Nat}
    (later : ∀ left, size = left + 1 → ∀ ch src dst, Ahead ch src → ch.isDigit = true →
      Avoids .outOfBounds Stopped (dottedOctets left ch src dst))
    {ch : Char} {src : Cursor} (ahead : Ahead ch src) (digit : ch.isDigit = true) (dst : List UInt8) :
    Avoids .outOfBounds Stopped (dottedOctets size ch src dst) := by
  rw [dottedOctets.eq_def]
  refine (readOctet_avoids ahead digit).bind ?_
  rintro (_ | ⟨tmp, ch, src⟩) found
  · exact nofun
  · have more : Ahead ch src := found _ rfl
    cases size with
    | zero => exact nofun
    | succ left =>
        dsimp only
        split
        · rintro stop ⟨⟩
          exact more
        · split
          · exact nofun
          · next point =>
              obtain ⟨rest, rfl⟩ := more (by rw [not_not.mp point]; decide)
              refine (next_avoids rest).bind ?_
              rintro ⟨ch, src⟩ next
              dsimp only
              split
              · exact nofun
              · next digit => exact later left rfl ch src _ next (by simpa using digit)

theorem dottedOctets_avoids (size : Nat) {ch : Char} {src : Cursor} (ahead : Ahead ch src)
    (digit : ch.isDigit = true) (dst : List UInt8) :
    Avoids .outOfBounds Stopped (dottedOctets size ch src dst) := by
  induction size generalizing ch src dst with
  | zero =>
      refine dottedOctets_step_avoids ?_ ahead digit dst
      exact fun left none => absurd none.symm (Nat.succ_ne_zero left)
  | succ size ih =>
      refine dottedOctets_step_avoids ?_ ahead digit dst
      rintro left ⟨⟩
      exact fun _ _ dst ahead digit => ih ahead digit dst

theorem nibbles_stopped (src : List Char) (dirty : Option Nat) (size : Nat) (dst : List UInt8) :
    Stopped (nibbles src dirty size dst) := by
  induction src generalizing dirty size dst with
  | nil =>
      intro stop found
      obtain ⟨_, _, rfl⟩ := Option.map_eq_some_iff.mp found
      exact ahead_end
  | cons ch src ih =>
      rw [nibbles]
      split
      · intro stop found
        obtain ⟨_, _, rfl⟩ := Option.map_eq_some_iff.mp found
        exact ahead_some ch src
      · split
        · exact ih _ _ _
        · split
          · exact nofun
          · exact ih _ _ _

theorem startsHex_avoids {ch : Char} {src : Cursor} (ahead : Ahead ch src) :
    Avoids .outOfBounds (fun hex => hex = true → ∃ mark rest, src = some (mark :: rest))
      (startsHex ch src) := by
  rw [startsHex]
  split
  · next zero =>
      obtain ⟨src, rfl⟩ := ahead (by rw [zero]; decide)
      cases src with
      | nil => exact nofun
      | cons mark rest =>
          rw [Cursor.next, ok_bind]
          dsimp only
          split
          · exact fun _ => ⟨mark, rest, rfl⟩
          · exact nofun
  · exact nofun

theorem networkOctets_avoids (src : List Char) (size : Nat) :
    Avoids .outOfBounds Stopped (networkOctets src size) := by
  refine (next_avoids src).bind ?_
  rintro ⟨ch, rest⟩ ahead
  refine (startsHex_avoids ahead).bind ?_
  intro hex marked
  split
  · next starts =>
      obtain ⟨mark, after, rfl⟩ := marked starts
      split
      · exact nofun
      · exact nibbles_stopped after none size []
  · split
    · next digit => exact dottedOctets_avoids size ahead digit []
    · exact nofun

theorem inetCidrPtonIpv4_avoids (src : List Char) (size : Nat) :
    Avoids .outOfBounds (fun _ => True) (inetCidrPtonIpv4 src size) := by
  refine (networkOctets_avoids src size).bind ?_
  rintro (_ | ⟨ch, rest, dst⟩) found
  · trivial
  · refine (prefixLength_avoids (found _ rfl) dst.length).bind ?_
    rintro (_ | bits) _
    · trivial
    · dsimp only
      split
      · trivial
      · split <;> trivial

end PqAsync
