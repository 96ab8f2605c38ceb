import PqAsync.CellReaders

/-!
Executable model of the texts of network addresses: the printers and the parsers of both families,
and the constructors and comparisons of `inet` and `cidr`. What is printed into a buffer is checked
against its size; a pointer into a text is what is left of it, up to the NUL behind it.
-/

namespace PqAsync

def pgsqlAfInet : Nat := 2

/-- The size of the buffer `tmp` of the conversions to a string, and of the one of the printer. -/
def netTextSize : Nat := "xxxx:xxxx:xxxx:xxxx:xxxx:xxxx:255.255.255.255/128".length + 1

section Printing

def putChar (size : Nat) (printed : List Char) (c : Char) : Except WireError (List Char) :=
  if printed.length < size then .ok (printed ++ [c]) else .error .outOfBounds

def sprintf (size : Nat) (printed text : List Char) : Except WireError (List Char) :=
  if printed.length + text.length < size then .ok (printed ++ text) else .error .outOfBounds

/-- At most `room` characters are written, with the NUL among them. -/
def snprintf (printed : List Char) (room : Nat) (text : List Char) : List Char :=
  printed ++ text.take (room - 1)

/-- The octets with a point between them; `left` is what the caller still allows. -/
def octetsInto (size : Nat) : List UInt8 → Nat → List Char →
    Except WireError (Option (Nat × List Char))
  | [], left, printed => .ok (some (left, printed))
  | octet :: octets, left, printed =>
      if left ≤ ".255".length + 1 then .ok none
      else do
        let pointed ← if printed.length ≠ 0 then putChar size printed '.' else .ok printed
        let next ← sprintf size pointed (Nat.toDigits 10 octet.toNat)
        octetsInto size octets (left - (next.length - printed.length)) next

def inetNetNtopIpv4 (src : List UInt8) (bits : Nat) (size : Nat) :
    Except WireError (Option (List Char)) :=
  if bits > 32 then .ok none
  else do
    match ← octetsInto size (src.take 4) size [] with
    | none => return none
    | some (left, printed) =>
        if bits ≠ 32 then
          if left ≤ "/32".length + 1 then return none
          else
            let printed ← sprintf size printed ('/' :: Nat.toDigits 10 bits)
            return some printed
        else return some printed

/-- `decoct`; `left` is what is left of the buffer, and `none` stands for a length of 0. -/
def decoct (size : Nat) : List UInt8 → Nat → List Char → Except WireError (Option (List Char))
  | [], _, printed => .ok (some printed)
  | octet :: octets, left, printed =>
      if left ≤ "255.".length + 1 then .ok none
      else do
        let next ← sprintf size printed (Nat.toDigits 10 octet.toNat)
        let next ← if octets ≠ [] then sprintf size next ['.'] else .ok next
        decoct size octets (left - (next.length - printed.length)) next

structure ZeroRun where
  base : Nat
  len : Nat
  deriving DecidableEq, Repr

def betterRun (cur best : Option ZeroRun) : Option ZeroRun :=
  match cur, best with
  | none, best => best
  | some cur, none => some cur
  | some cur, some best => if cur.len > best.len then some cur else some best

def zeroAt (i : Nat) (cur : Option ZeroRun) : ZeroRun :=
  match cur with
  | none => { base := i, len := 1 }
  | some cur => { cur with len := cur.len + 1 }

/-- The loop over the words from the index `i` on. -/
def findRun : List Nat → Nat → Option ZeroRun → Option ZeroRun → Option ZeroRun
  | [], _, cur, best => betterRun cur best
  | word :: words, i, cur, best =>
      if word = 0 then findRun words (i + 1) (some (zeroAt i cur)) best
      else findRun words (i + 1) none (betterRun cur best)

def bestRun (words : List Nat) : Option ZeroRun :=
  match findRun words 0 none none with
  | none => none
  | some best => if best.len < 2 then none else some best

def wordsOf : List UInt8 → List Nat
  | high :: low :: src => (high.toNat <<< 8 ||| low.toNat) :: wordsOf src
  | _ => []

def encapsulates (words : List Nat) (best : Option ZeroRun) : Bool :=
  match best with
  | none => false
  | some best =>
      best.base = 0 ∧ (best.len = 6 ∨ (best.len = 7 ∧ words.getD 7 0 ≠ 0x0001) ∨
        (best.len = 5 ∧ words.getD 5 0 = 0xffff))

def insideRun (best : Option ZeroRun) (i : Nat) : Bool :=
  match best with
  | none => false
  | some best => best.base ≤ i ∧ i < best.base + best.len

def startsRun (best : Option ZeroRun) (i : Nat) : Bool :=
  match best with
  | none => false
  | some best => best.base = i

/-- The loop that formats the words from the index `i` on; the encapsulated address ends it. -/
def formatWords (src : List UInt8) (words : List Nat) (best : Option ZeroRun) :
    List Nat → Nat → List Char → Except WireError (Option (List Char))
  | [], _, tmp => .ok (some tmp)
  | word :: rest, i, tmp =>
      if insideRun best i then do
        let tmp ← if startsRun best i then putChar netTextSize tmp ':' else .ok tmp
        formatWords src words best rest (i + 1) tmp
      else do
        let tmp ← if i ≠ 0 then putChar netTextSize tmp ':' else .ok tmp
        if i = 6 ∧ encapsulates words best then
          decoct netTextSize ((src.drop 12).take 4) (netTextSize - tmp.length) tmp
        else
          let tmp ← sprintf netTextSize tmp (Nat.toDigits 16 word)
          formatWords src words best rest (i + 1) tmp

def endsRun (best : Option ZeroRun) : Bool :=
  match best with
  | none => false
  | some best => best.base + best.len = 8

def copyPrinted (tmp : List Char) (bits : Nat) (size : Nat) : Except WireError (Option (List Char)) := do
  let tmp ← sprintf netTextSize tmp []
  let tmp ← if bits ≠ 128 then sprintf netTextSize tmp ('/' :: Nat.toDigits 10 bits) else .ok tmp
  if tmp.length > size then return none
  else
    let dst ← sprintf size [] tmp
    return some dst

def inetNetNtopIpv6 (src : List UInt8) (bits : Nat) (size : Nat) :
    Except WireError (Option (List Char)) :=
  if bits > 128 then .ok none
  else do
    let words := wordsOf (src.take 16)
    let best := bestRun words
    match ← formatWords src words best words 0 [] with
    | none => return none
    | some tmp =>
        let tmp ← if endsRun best then putChar netTextSize tmp ':' else .ok tmp
        copyPrinted tmp bits size

end Printing

section Parsing

/-- A pointer into a text, as what is left of it; `none` points behind the NUL at its end. -/
abbrev Cursor := Option (List Char)

def Cursor.read : Cursor → Except WireError Char
  | none => .error .outOfBounds
  | some src => .ok (src.headD '\x00')

def Cursor.next : Cursor → Except WireError (Char × Cursor)
  | none => .error .outOfBounds
  | some [] => .ok ('\x00', none)
  | some (ch :: src) => .ok (ch, some src)

def decimalDigit (ch : Char) : Nat := ch.toNat - '0'.toNat

def hexDigit? (ch : Char) : Option Nat :=
  if '0' ≤ ch ∧ ch ≤ '9' then some (ch.toNat - '0'.toNat)
  else if 'a' ≤ ch ∧ ch ≤ 'f' then some (ch.toNat - 'a'.toNat + 10)
  else if 'A' ≤ ch ∧ ch ≤ 'F' then some (ch.toNat - 'A'.toNat + 10)
  else none

theorem hexDigit_digitChar {d : Nat} (small : d < 16) : hexDigit? (Nat.digitChar d) = some d := by
  revert d
  decide

/-- The digits of an octet from `ch` on, up to the character that is none. -/
def octetDigits : Nat → Char → List Char → Option (Nat × Char × Cursor)
  | tmp, ch, [] =>
      let tmp := tmp * 10 + decimalDigit ch
      if tmp > 255 then none else some (tmp, '\x00', none)
  | tmp, ch, next :: src =>
      let tmp := tmp * 10 + decimalDigit ch
      if tmp > 255 then none
      else if next.isDigit then octetDigits tmp next src
      else some (tmp, next, some src)

def readOctet (ch : Char) : Cursor → Except WireError (Option (Nat × Char × Cursor))
  | none => .error .outOfBounds
  | some src => .ok (octetDigits 0 ch src)

/-- The digits of a prefix length, which is an `int`. -/
def bitsDigits : Nat → Char → List Char → Except WireError (Nat × Char)
  | bits, ch, [] =>
      let bits := bits * 10 + decimalDigit ch
      if bits ≥ 2 ^ 31 then .error .overflow else .ok (bits, '\x00')
  | bits, ch, next :: src =>
      let bits := bits * 10 + decimalDigit ch
      if bits ≥ 2 ^ 31 then .error .overflow
      else if next.isDigit then bitsDigits bits next src
      else .ok (bits, next)

def readBits (ch : Char) : Cursor → Except WireError (Nat × Char)
  | none => .error .outOfBounds
  | some src => bitsDigits 0 ch src

/-- The prefix length and the end of the text, in both parsers; `some none` is no length. -/
def prefixLength (ch : Char) (src : Cursor) (written : Nat) :
    Except WireError (Option (Option Nat)) :=
  if ch = '/' then do
    let first ← src.read
    if first.isDigit ∧ written > 0 then
      let (ch, src) ← src.next
      let (bits, ch) ← readBits ch src
      if ch ≠ '\x00' then return none
      else if bits > 32 then return none
      else return some (some bits)
    else return none
  else if ch ≠ '\x00' then .ok none
  else .ok (some none)

/-- The octets of `inet_net_pton_ipv4`; `size` is the room that is left for them. -/
def mantissa : Nat → Cursor → List UInt8 → Except WireError (Option (Char × Cursor × List UInt8))
  | size, src, dst => do
      let (ch, src) ← src.next
      if !ch.isDigit then return some (ch, src, dst)
      else
        match ← readOctet ch src with
        | none => return none
        | some (tmp, ch, src) =>
            match size with
            | 0 => return none
            | size + 1 =>
                let dst := dst ++ [UInt8.ofNat tmp]
                if ch = '\x00' ∨ ch = '/' then return some (ch, src, dst)
                else if ch ≠ '.' then return none
                else mantissa size src dst

def inetNetPtonIpv4 (src : List Char) : Except WireError (Option (Nat × List UInt8)) := do
  match ← mantissa 4 (some src) [] with
  | none => return none
  | some (ch, src, dst) =>
      match ← prefixLength ch src dst.length with
      | none => return none
      | some bits =>
          let bits := if bits = none ∧ dst.length = 4 then some 32 else bits
          match bits with
          | none => return none
          | some bits =>
              if dst.length = 0 then return none
              else if bits / 8 > dst.length then return none
              else return some (bits, dst ++ List.replicate (4 - dst.length) 0)

/-- The end of a string of nibbles, of which an odd one is `dirty`. -/
def trailingNibble (dirty : Option Nat) (size : Nat) (dst : List UInt8) : Option (List UInt8) :=
  match dirty with
  | none => some dst
  | some tmp => if size = 0 then none else some (dst ++ [UInt8.ofNat (tmp <<< 4)])

def nibbles : List Char → Option Nat → Nat → List UInt8 → Option (Char × Cursor × List UInt8)
  | [], dirty, size, dst => (trailingNibble dirty size dst).map fun dst => ('\x00', none, dst)
  | ch :: src, dirty, size, dst =>
      match hexDigit? ch with
      | none => (trailingNibble dirty size dst).map fun dst => (ch, some src, dst)
      | some n =>
          match dirty with
          | none => nibbles src (some n) size dst
          | some tmp =>
              if size = 0 then none
              else nibbles src none (size - 1) (dst ++ [UInt8.ofNat (tmp <<< 4 ||| n)])

def dottedOctets : Nat → Char → Cursor → List UInt8 →
    Except WireError (Option (Char × Cursor × List UInt8))
  | size, ch, src, dst => do
      match ← readOctet ch src with
      | none => return none
      | some (tmp, ch, src) =>
          match size with
          | 0 => return none
          | size + 1 =>
              let dst := dst ++ [UInt8.ofNat tmp]
              if ch = '\x00' ∨ ch = '/' then return some (ch, src, dst)
              else if ch ≠ '.' then return none
              else
                let (ch, src) ← src.next
                if !ch.isDigit then return none else dottedOctets size ch src dst

/-- Whether a hexadecimal string follows its `0`. -/
def startsHex (ch : Char) (src : Cursor) : Except WireError Bool :=
  if ch = '0' then do
    let (mark, rest) ← src.next
    if mark = 'x' ∨ mark = 'X' then
      let first ← rest.read
      return (hexDigit? first).isSome
    else return false
  else .ok false

def classBits (dst : List UInt8) : Nat :=
  let first := dst.headD 0
  let bits := if first ≥ 240 then 32 else if first ≥ 224 then 8 else if first ≥ 192 then 24
    else if first ≥ 128 then 16 else 8
  let bits := if bits < dst.length * 8 then dst.length * 8 else bits
  if bits = 8 ∧ first = 224 then 4 else bits

/-- The octets of `inet_cidr_pton_ipv4`, in hexadecimal or in decimal digits. -/
def networkOctets (src : List Char) (size : Nat) :
    Except WireError (Option (Char × Cursor × List UInt8)) := do
  let (ch, src) ← Cursor.next (some src)
  if ← startsHex ch src then
    if size = 0 then return none
    else
      let (_, src) ← src.next
      match src with
      | none => throw .outOfBounds
      | some src => return nibbles src none size []
  else if ch.isDigit then dottedOctets size ch src []
  else return none

def inetCidrPtonIpv4 (src : List Char) (size : Nat) : Except WireError (Option (Nat × List UInt8)) := do
  match ← networkOctets src size with
  | none => return none
  | some (ch, src, dst) =>
      match ← prefixLength ch src dst.length with
      | none => return none
      | some bits =>
          if dst = [] then return none
          else
            let bits := bits.getD (classBits dst)
            -- The octets that the width asks for and the text does not give are zero.
            let missing := (bits + 7) / 8 - dst.length
            if missing > size - dst.length then return none
            else return some (bits, dst ++ List.replicate missing 0)

/-- `getbits`: digits up to the end of the text, without zeros in front, and at most 128. -/
def getbits : List Char → Nat → Nat → Option Nat
  | [], n, val => if n = 0 then none else some val
  | ch :: src, n, val =>
      if ch.isDigit then
        if n ≠ 0 ∧ val = 0 then none
        else
          let val := val * 10 + decimalDigit ch
          if val > 128 then none else getbits src (n + 1) val
      else none

/-- `getv4`: octets without zeros in front, and a prefix length behind them if there is one. -/
def getv4 : List Char → Nat → Nat → List UInt8 → Option (List UInt8 × Option Nat)
  | [], n, val, dst =>
      if n = 0 then none else if dst.length > 3 then none else some (dst ++ [UInt8.ofNat val], none)
  | ch :: src, n, val, dst =>
      if ch.isDigit then
        if n ≠ 0 ∧ val = 0 then none
        else
          let val := val * 10 + decimalDigit ch
          if val > 255 then none else getv4 src (n + 1) val dst
      else if ch = '.' ∨ ch = '/' then
        if dst.length > 3 then none
        else
          let dst := dst ++ [UInt8.ofNat val]
          if ch = '/' then (getbits src 0 0).map fun bits => (dst, some bits) else getv4 src 0 0 dst
      else none

/-- The variables of the loop of `inet_cidr_pton_ipv6`; `tp` is the end of what is stored in `tmp`. -/
structure Scan6 where
  tmp : List UInt8 := []
  colonp : Option Nat := none
  curtok : List Char
  sawXdigit : Bool := false
  val : Nat := 0
  digits : Nat := 0
  bits : Option Nat := none

def wordBytes (val : Nat) : List UInt8 := [UInt8.ofNat (val >>> 8), UInt8.ofNat val]

def scan6 : List Char → Scan6 → Option Scan6
  | [], s => some s
  | ch :: src, s =>
      match hexDigit? ch with
      | some n =>
          if s.digits + 1 > 4 then none
          else
            scan6 src { s with val := s.val <<< 4 ||| n, digits := s.digits + 1, sawXdigit := true }
      | none =>
          if ch = ':' then
            if !s.sawXdigit then
              if s.colonp.isSome then none
              else scan6 src { s with curtok := src, colonp := some s.tmp.length }
            else if src = [] then none
            else if s.tmp.length + 2 > 16 then none
            else
              scan6 src { s with
                curtok := src, tmp := s.tmp ++ wordBytes s.val, sawXdigit := false, digits := 0,
                val := 0 }
          else if ch = '.' ∧ s.tmp.length + 4 ≤ 16 then
            match getv4 s.curtok 0 0 [] with
            | none => none
            | some (octets, bits) =>
                some { s with
                  tmp := s.tmp ++ (octets ++ List.replicate (4 - octets.length) 0)
                  sawXdigit := false
                  bits := bits.or s.bits }
          else if ch = '/' then (getbits src 0 0).map fun bits => { s with bits := some bits }
          else none

/-- The loop that shifts `n` bytes in front of `tp` to the end, the last one first; `i` of them are
shifted. -/
def shiftTail (tp : Nat) : Nat → Nat → List UInt8 → List UInt8
  | 0, _, tmp => tmp
  | n + 1, i, tmp =>
      shiftTail tp n (i + 1) ((tmp.set (16 - (i + 1)) (tmp.getD (tp - (i + 1)) 0)).set (tp - (i + 1)) 0)

/-- A `::` in front is read from its second colon on. -/
def leadingColon : List Char → Option (List Char)
  | ':' :: src => if src.headD '\x00' ≠ ':' then none else some src
  | src => some src

def Scan6.stored (s : Scan6) : Option (List UInt8) :=
  if s.sawXdigit then
    if s.tmp.length + 2 > 16 then none else some (s.tmp ++ wordBytes s.val)
  else some s.tmp

/-- The 16 bytes of `tmp`, those behind `colonp` shifted to the end. -/
def expanded (tmp : List UInt8) (colonp : Option Nat) : Option (List UInt8) :=
  let cells := tmp ++ List.replicate (16 - tmp.length) 0
  match colonp with
  | some colonp =>
      if tmp.length = 16 then none else some (shiftTail tmp.length (tmp.length - colonp) 0 cells)
  | none => if tmp.length ≠ 16 then none else some cells

def inetCidrPtonIpv6 (src : List Char) (size : Nat) : Option (Nat × List UInt8) :=
  if size < 16 then none
  else do
    let src ← leadingColon src
    let s ← scan6 src { curtok := src }
    let tmp ← s.stored
    let address ← expanded tmp s.colonp
    return (s.bits.getD 128, address)

def inetNetPtonIpv6 (src : List Char) : Option (Nat × List UInt8) := inetCidrPtonIpv6 src 16

end Parsing

section Comparing

/-- `memcmp`, up to its sign. -/
def memcmp : List UInt8 → List UInt8 → Int
  | l :: ls, r :: rs => if l < r then -1 else if r < l then 1 else memcmp ls rs
  | _, _ => 0

def bitLoop : Nat → Nat → Nat → Int
  | 0, _, _ => 0
  | b + 1, lb, rb =>
      if lb.testBit 7 ≠ rb.testBit 7 then if lb.testBit 7 then 1 else -1
      else bitLoop b (lb <<< 1) (rb <<< 1)

def bitncmp (l r : List UInt8) (n : Nat) : Int :=
  let b := n / 8
  let x := memcmp (l.take b) (r.take b)
  if x ≠ 0 ∨ n % 8 = 0 then x
  else bitLoop (n % 8) (l.getD b 0).toNat (r.getD b 0).toNat

def familyCode (family : NetFamily) : Int :=
  if family = .inet then pgsqlAfInet else pgsqlAfInet + 1

def networkCmp (a1 a2 : NetAddress) : Int :=
  if a1.family = a2.family then
    let order := bitncmp a1.ipaddr a2.ipaddr (min a1.bits a2.bits).toNat
    if order ≠ 0 then order
    else
      let order : Int := (a1.bits.toNat : Int) - a2.bits.toNat
      if order ≠ 0 then order
      else bitncmp a1.ipaddr a2.ipaddr (if a1.family = .inet then 32 else 128)
  else familyCode a1.family - familyCode a2.family

/-- The operator `==` of both types. -/
def NetAddress.equal (a b : NetAddress) : Bool := networkCmp a b = 0

def addressOk (a : List UInt8) (bits : Nat) (family : NetFamily) : Bool :=
  let maxbits := if family = .inet then 32 else 128
  let maxbytes := if family = .inet then 4 else 16
  if bits = maxbits then true
  else
    let byte := bits / 8
    let mask : UInt8 := if bits ≠ 0 then 0xff >>> UInt8.ofNat (bits % 8) else 0xff
    (a.getD byte 0 &&& mask) = 0 ∧ ((a.drop (byte + 1)).take (maxbytes - (byte + 1))).all (· = 0)

end Comparing

section Constructors

/-- The result of a parser in the fields of an address, whose prefix length is an unsigned byte. The
limit is chosen by a constant that is not zero. -/
def storeAddress (family : NetFamily) (type : String) (converted : Option (Nat × List UInt8)) :
    Except WireError NetAddress :=
  let invalid := WireError.exception ("invalid input syntax for type " ++ type)
  match converted with
  | none => .error invalid
  | some (bits, address) =>
      let bits := UInt8.ofNat bits
      if bits.toNat > (if pgsqlAfInet ≠ 0 then 32 else 128) then .error invalid
      else .ok { family, bits, ipaddr := address ++ List.replicate (16 - address.length) 0 }

def inetOfText (src : List Char) : Except WireError NetAddress :=
  if ':' ∈ src then storeAddress .inet6 "inet" (inetNetPtonIpv6 src)
  else do storeAddress .inet "inet" (← inetNetPtonIpv4 src)

def cidrOfText (src : List Char) : Except WireError NetAddress := do
  let address ←
    if ':' ∈ src then storeAddress .inet6 "cidr" (inetCidrPtonIpv6 src 16)
    else storeAddress .inet "cidr" (← inetCidrPtonIpv4 src 4)
  if addressOk address.ipaddr address.bits.toNat address.family then return address
  else throw (.exception "invalid external \"cidr\" value, Value has bits set to right of mask.")

def inetNetNtop (address : NetAddress) : Except WireError (Option (List Char)) :=
  if address.family = .inet then inetNetNtopIpv4 address.ipaddr address.bits.toNat netTextSize
  else inetNetNtopIpv6 address.ipaddr address.bits.toNat netTextSize

def inetText (address : NetAddress) : Except WireError (List Char) := do
  match ← inetNetNtop address with
  | none => throw (.exception "could not format inet value")
  | some tmp => return tmp

def cidrText (address : NetAddress) : Except WireError (List Char) := do
  let tmp ← inetText address
  if '/' ∈ tmp then return tmp
  else return snprintf tmp (netTextSize - tmp.length) ('/' :: Nat.toDigits 10 address.bits.toNat)

end Constructors

end PqAsync
