import TelemetryForge.Foundation.Bytes

/-! # SHA-256 and CRC-32

Executable digests over byte lists. Words are natural numbers below `2 ^ 32`,
so that the kernel evaluates a digest with machine arithmetic on numerals. -/

namespace TelemetryForge

namespace Sha256

def word (value : Nat) : Nat := value % 4294967296

def rotateRight (count value : Nat) : Nat :=
  Nat.lor (Nat.shiftRight value count) (word (Nat.shiftLeft value (32 - count)))

def roundConstants : List Nat := [
  0x428a2f98, 0x71374491, 0xb5c0fbcf, 0xe9b5dba5, 0x3956c25b, 0x59f111f1,
  0x923f82a4, 0xab1c5ed5, 0xd807aa98, 0x12835b01, 0x243185be, 0x550c7dc3,
  0x72be5d74, 0x80deb1fe, 0x9bdc06a7, 0xc19bf174, 0xe49b69c1, 0xefbe4786,
  0x0fc19dc6, 0x240ca1cc, 0x2de92c6f, 0x4a7484aa, 0x5cb0a9dc, 0x76f988da,
  0x983e5152, 0xa831c66d, 0xb00327c8, 0xbf597fc7, 0xc6e00bf3, 0xd5a79147,
  0x06ca6351, 0x14292967, 0x27b70a85, 0x2e1b2138, 0x4d2c6dfc, 0x53380d13,
  0x650a7354, 0x766a0abb, 0x81c2c92e, 0x92722c85, 0xa2bfe8a1, 0xa81a664b,
  0xc24b8b70, 0xc76c51a3, 0xd192e819, 0xd6990624, 0xf40e3585, 0x106aa070,
  0x19a4c116, 0x1e376c08, 0x2748774c, 0x34b0bcb5, 0x391c0cb3, 0x4ed8aa4a,
  0x5b9cca4f, 0x682e6ff3, 0x748f82ee, 0x78a5636f, 0x84c87814, 0x8cc70208,
  0x90befffa, 0xa4506ceb, 0xbef9a3f7, 0xc67178f2]

structure State where
  a : Nat
  b : Nat
  c : Nat
  d : Nat
  e : Nat
  f : Nat
  g : Nat
  h : Nat

def initial : State where
  a := 0x6a09e667
  b := 0xbb67ae85
  c := 0x3c6ef372
  d := 0xa54ff53a
  e := 0x510e527f
  f := 0x9b05688c
  g := 0x1f83d9ab
  h := 0x5be0cd19

def scheduleSigma0 (value : Nat) : Nat :=
  Nat.xor (Nat.xor (rotateRight 7 value) (rotateRight 18 value)) (Nat.shiftRight value 3)

def scheduleSigma1 (value : Nat) : Nat :=
  Nat.xor (Nat.xor (rotateRight 17 value) (rotateRight 19 value)) (Nat.shiftRight value 10)

def roundSigma0 (value : Nat) : Nat :=
  Nat.xor (Nat.xor (rotateRight 2 value) (rotateRight 13 value)) (rotateRight 22 value)

def roundSigma1 (value : Nat) : Nat :=
  Nat.xor (Nat.xor (rotateRight 6 value) (rotateRight 11 value)) (rotateRight 25 value)

def choose (e f g : Nat) : Nat :=
  Nat.xor (Nat.land e f) (Nat.land (Nat.xor e 0xffffffff) g)

def majority (a b c : Nat) : Nat :=
  Nat.xor (Nat.xor (Nat.land a b) (Nat.land a c)) (Nat.land b c)

def round (state : State) (constant scheduled : Nat) : State :=
  let first := state.h + roundSigma1 state.e + choose state.e state.f state.g + constant + scheduled
  let second := roundSigma0 state.a + majority state.a state.b state.c
  { a := word (first + second), b := state.a, c := state.b, d := state.c,
    e := word (state.d + first), f := state.e, g := state.f, h := state.g }

def rounds : List Nat → List Nat → State → State
  | constant :: constants, scheduled :: window, state =>
    let next := word (scheduleSigma1 (window.getD 13 0) + window.getD 8 0 +
      scheduleSigma0 (window.getD 0 0) + scheduled)
    rounds constants (window ++ [next]) (round state constant scheduled)
  | _, _, state => state

def compress (state : State) (block : List Nat) : State :=
  let last := rounds roundConstants block state
  { a := word (state.a + last.a), b := word (state.b + last.b),
    c := word (state.c + last.c), d := word (state.d + last.d),
    e := word (state.e + last.e), f := word (state.f + last.f),
    g := word (state.g + last.g), h := word (state.h + last.h) }

def blockWords : Bytes → List Nat
  | first :: second :: third :: fourth :: rest =>
    readBigEndian32 [first, second, third, fourth] :: blockWords rest
  | _ => []

def pad (message : Bytes) : Bytes :=
  message ++ [0x80] ++ List.replicate ((119 - message.length % 64) % 64) 0 ++
    bigEndian32 (8 * message.length / 4294967296) ++ bigEndian32 (8 * message.length)

def compressBlocks : Nat → List Nat → State → State
  | 0, _, state => state
  | count + 1, words, state =>
    compressBlocks count (words.drop 16) (compress state (words.take 16))

def sum256 (message : Bytes) : Bytes :=
  let padded := pad message
  let last := compressBlocks (padded.length / 64) (blockWords padded) initial
  [last.a, last.b, last.c, last.d, last.e, last.f, last.g, last.h].flatMap bigEndian32

@[simp] theorem sum256_length (message : Bytes) : (sum256 message).length = 32 := by
  simp [sum256]

attribute [irreducible] sum256

example : hexEncode (sum256 (ascii "abc")) =
    ascii "ba7816bf8f01cfea414140de5dae2223b00361a396177a9cb410ff61f20015ad" := by
  decide +kernel

end Sha256

def CollisionFree (messages : Set Bytes) : Prop :=
  Set.InjOn Sha256.sum256 messages

namespace Crc32

def shiftBit (register : Nat) : Nat :=
  if register % 2 = 1 then Nat.xor (register / 2) 0xedb88320 else register / 2

def update (register : Nat) (byte : UInt8) : Nat :=
  shiftBit (shiftBit (shiftBit (shiftBit (shiftBit (shiftBit (shiftBit (shiftBit
    (Nat.xor register byte.toNat))))))))

def checksumIEEE (data : Bytes) : Nat :=
  Nat.xor (data.foldl update 0xffffffff) 0xffffffff % 4294967296

theorem checksumIEEE_lt (data : Bytes) : checksumIEEE data < 4294967296 :=
  Nat.mod_lt _ (by decide)

attribute [irreducible] checksumIEEE

example : checksumIEEE (ascii "123456789") = 0xcbf43926 := by decide +kernel

end Crc32

/-! ## 64-bit hashes -/

def hash64 (message : Bytes) : Nat :=
  ((Sha256.sum256 message).take 8).foldl (fun value byte => value * 256 + byte.toNat) 0

end TelemetryForge
