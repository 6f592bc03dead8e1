import AlfredProcessing.Lib.Json

namespace AlfredProcessing.Lib.Ip

open Json

/-- An IP address of either version. An IPv6 address may name a zone. -/
inductive Address where
  | v4 (ip : BitVec 32)
  | v6 (ip : BitVec 128) (scopeId : Option (List Char))
  deriving DecidableEq

def Address.ipv4Mapped : Address → Option (BitVec 32)
  | .v4 _ => none
  | .v6 ip _ => if ip.extractLsb' 32 96 = 0xffff#96 then some (ip.extractLsb' 0 32) else none

section Parsing

/-- One of the four numbers of an IPv4 address. Leading zeros are ambiguous, and refused. -/
def parseOctet (s : List Char) : Option (BitVec 8) :=
  if s.isEmpty || !s.all Char.isDigit || s.length > 3 then none
  else if s ≠ ['0'] && s.head? = some '0' then none
  else if natOf s > 255 then none
  else some (BitVec.ofNat 8 (natOf s))

def parseV4 (s : List Char) : Option (BitVec 32) :=
  match (s.splitOn '.').map parseOctet with
  | [some a, some b, some c, some d] => some (a ++ b ++ c ++ d)
  | _ => none

/-- A part of an IPv6 address between colons. The two parts that an IPv4-style
suffix stands for are numbers already. -/
inductive Part where
  | text (s : List Char)
  | number (n : BitVec 16)

def Part.isEmpty : Part → Bool
  | .text s => s.isEmpty
  | .number _ => false

def Part.hextet : Part → Option (BitVec 16)
  | .text s =>
    if s.isEmpty || s.length > 4 then none
    else (s.mapM hexVal).map fun ds => BitVec.ofNat 16 (ds.foldl (fun n d => 16 * n + d) 0)
  | .number n => some n

def splitParts (s : List Char) : Option (List Part) :=
  let parts := s.splitOn ':'
  if parts.length < 3 then none
  else if (parts.getLastD []).contains '.' then
    (parseV4 (parts.getLastD [])).map fun ip =>
      parts.dropLast.map .text ++ [.number (ip.extractLsb' 16 16), .number (ip.extractLsb' 0 16)]
  else some (parts.map .text)

/-- The parts in front of and behind `::`, or all of them where there is none. -/
def aroundSkip (parts : List Part) : Option (List Part × List Part) :=
  let empties := (List.range parts.length).filter fun i =>
    0 < i && i + 1 < parts.length && (parts[i]?.map Part.isEmpty).getD false
  match empties with
  | [] => if parts.length = 8 then some (parts, []) else none
  | [i] =>
    let before := parts.take i
    let behind := parts.drop (i + 1)
    let openStart := (before.head?.map Part.isEmpty).getD false
    let openEnd := (behind.getLast?.map Part.isEmpty).getD false
    if openStart && before.length > 1 || openEnd && behind.length > 1 then none
    else
      let hi := if openStart then [] else before
      let lo := if openEnd then [] else behind
      if hi.length + lo.length < 8 then some (hi, lo) else none
  | _ => none

def pushHextets (ip : BitVec 128) (hextets : List (BitVec 16)) : BitVec 128 :=
  hextets.foldl (fun ip h => (ip <<< 16) ||| h.setWidth 128) ip

def parseV6Int (s : List Char) : Option (BitVec 128) := do
  let parts ← splitParts s
  if parts.length > 9 then failure
  let (hi, lo) ← aroundSkip parts
  let hi ← hi.mapM Part.hextet
  let lo ← lo.mapM Part.hextet
  return pushHextets (pushHextets 0 hi <<< (16 * (8 - (hi.length + lo.length)))) lo

def parseV6 (s : List Char) : Option (BitVec 128 × Option (List Char)) :=
  if s.contains '/' then none
  else
    match s.splitOn '%' with
    | [addr] => (parseV6Int addr).map fun ip => (ip, none)
    | [addr, scope] =>
      if scope.isEmpty then none else (parseV6Int addr).map fun ip => (ip, some scope)
    | _ => none

/-- `ipaddress.ip_address`. -/
def ipAddress (s : List Char) : Option Address :=
  match parseV4 s with
  | some ip => some (.v4 ip)
  | none => (parseV6 s).map fun p => .v6 p.1 p.2

end Parsing

section Networks

/-- The netmask with `bits` leading ones. -/
def netmask (w bits : Nat) : BitVec w := BitVec.allOnes w <<< (w - bits)

/-- A network of one version, with no bits set behind its mask. -/
structure Block (w : Nat) where
  network : BitVec w
  bits : Nat
  masked : network &&& netmask w bits = network

def Block.contains {w : Nat} (b : Block w) (ip : BitVec w) : Bool :=
  ip &&& netmask w b.bits = b.network

def Block.ofAddress {w : Nat} (ip : BitVec w) (bits : Nat) : Block w where
  network := ip &&& netmask w bits
  bits := bits
  masked := by rw [BitVec.and_assoc, BitVec.and_self]

inductive Network where
  | v4 (b : Block 32)
  | v6 (b : Block 128)

/-- `address in network`; an address is in no network of the other version. -/
def Network.contains : Network → Address → Bool
  | .v4 b, .v4 ip => b.contains ip
  | .v6 b, .v6 ip _ => b.contains ip
  | _, _ => false

/-- Whether the bits in front of an IPv4-mapped address lead into the network. -/
def Network.meetsMapped : Network → Bool
  | .v4 _ => false
  | .v6 b => 0xffff#96 &&& (netmask 128 b.bits).extractLsb' 32 96 = b.network.extractLsb' 32 96

theorem network_of_contains {w : Nat} {b : Block w} {ip : BitVec w} (h : b.contains ip) :
    ip &&& netmask w b.bits = b.network := by
  simpa only [Block.contains, decide_eq_true_eq] using h

theorem high_of_ipv4Mapped {ip : BitVec 128} {scopeId : Option (List Char)} {ip4 : BitVec 32}
    (h : (Address.v6 ip scopeId).ipv4Mapped = some ip4) : ip.extractLsb' 32 96 = 0xffff#96 := by
  by_contra hne
  rw [Address.ipv4Mapped, if_neg hne] at h
  cases h

theorem meetsMapped_of_contains {n : Network} {a : Address} {ip4 : BitVec 32}
    (h : n.contains a) (hmapped : a.ipv4Mapped = some ip4) : n.meetsMapped := by
  cases a with
  | v4 ip => cases hmapped
  | v6 ip scopeId =>
    cases n with
    | v4 b => cases h
    | v6 b =>
      have hnet := network_of_contains h
      rw [Network.meetsMapped, decide_eq_true_eq, ← high_of_ipv4Mapped hmapped,
        ← BitVec.extractLsb'_and, hnet]

def parsePrefixLength (w : Nat) (s : List Char) : Option Nat :=
  if s.isEmpty || !s.all Char.isDigit || natOf s > w then none else some (natOf s)

def maskLength (ip : BitVec 32) : Option Nat :=
  ((List.range 33).find? fun bits => netmask 32 bits = ip).orElse fun _ =>
    (List.range 33).find? fun bits => netmask 32 bits = ~~~ip

/-- `ipaddress.ip_network`, not strict. -/
def ipNetwork (s : List Char) : Option Network :=
  let (addr, mask) :=
    match s.splitOn '/' with
    | [addr] => (addr, some none)
    | [addr, mask] => (addr, some (some mask))
    | _ => ([], none)
  match mask with
  | none => none
  | some mask =>
    let bits4 :=
      match mask with
      | none => some 32
      | some m => (parsePrefixLength 32 m).orElse fun _ => (parseV4 m).bind maskLength
    let bits6 :=
      match mask with
      | none => some 128
      | some m => parsePrefixLength 128 m
    match parseV4 addr, bits4 with
    | some ip, some bits => some (.v4 (.ofAddress ip bits))
    | _, _ =>
      match parseV6 addr, bits6 with
      | some p, some bits => some (.v6 (.ofAddress p.1 bits))
      | _, _ => none

end Networks

end AlfredProcessing.Lib.Ip
