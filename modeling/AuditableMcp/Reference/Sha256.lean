import Mathlib.Algebra.Group.Nat.Defs
import Mathlib.Data.List.Basic

-- SHA-256. A block, a window of its schedule and a state are each one number, words from
-- the top, so that the kernel can compute with them.
namespace AuditableMcp.Reference.Sha256

def roundConstants : List Nat :=
  [0x428a2f98, 0x71374491, 0xb5c0fbcf, 0xe9b5dba5, 0x3956c25b, 0x59f111f1, 0x923f82a4, 0xab1c5ed5,
   0xd807aa98, 0x12835b01, 0x243185be, 0x550c7dc3, 0x72be5d74, 0x80deb1fe, 0x9bdc06a7, 0xc19bf174,
   0xe49b69c1, 0xefbe4786, 0x0fc19dc6, 0x240ca1cc, 0x2de92c6f, 0x4a7484aa, 0x5cb0a9dc, 0x76f988da,
   0x983e5152, 0xa831c66d, 0xb00327c8, 0xbf597fc7, 0xc6e00bf3, 0xd5a79147, 0x06ca6351, 0x14292967,
   0x27b70a85, 0x2e1b2138, 0x4d2c6dfc, 0x53380d13, 0x650a7354, 0x766a0abb, 0x81c2c92e, 0x92722c85,
   0xa2bfe8a1, 0xa81a664b, 0xc24b8b70, 0xc76c51a3, 0xd192e819, 0xd6990624, 0xf40e3585, 0x106aa070,
   0x19a4c116, 0x1e376c08, 0x2748774c, 0x34b0bcb5, 0x391c0cb3, 0x4ed8aa4a, 0x5b9cca4f, 0x682e6ff3,
   0x748f82ee, 0x78a5636f, 0x84c87814, 0x8cc70208, 0x90befffa, 0xa4506ceb, 0xbef9a3f7, 0xc67178f2]

def initialState : Nat := 0x6a09e667bb67ae853c6ef372a54ff53a510e527f9b05688c1f83d9ab5be0cd19

-- A number evaluated before it is passed on.
def evaluated {α : Type} (n : Nat) (f : Nat → α) : α :=
  match n with
  | 0 => f 0
  | m + 1 => f (m + 1)

-- The word that stands `places` words above the lowest.
def word (packed places : Nat) : Nat := (packed >>> (32 * places)) % 2 ^ 32

def rotr (x n : Nat) : Nat := (x >>> n) ||| ((x <<< (32 - n)) % 2 ^ 32)

def bigSigma0 (x : Nat) : Nat := rotr x 2 ^^^ rotr x 13 ^^^ rotr x 22
def bigSigma1 (x : Nat) : Nat := rotr x 6 ^^^ rotr x 11 ^^^ rotr x 25
def smallSigma0 (x : Nat) : Nat := rotr x 7 ^^^ rotr x 18 ^^^ (x >>> 3)
def smallSigma1 (x : Nat) : Nat := rotr x 17 ^^^ rotr x 19 ^^^ (x >>> 10)

def choose (x y z : Nat) : Nat := (x &&& y) ^^^ ((x ^^^ (2 ^ 32 - 1)) &&& z)
def majority (x y z : Nat) : Nat := (x &&& y) ^^^ (x &&& z) ^^^ (y &&& z)

-- The window of sixteen schedule words, one word on.
def nextWindow (window : Nat) : Nat :=
  (window <<< 32) % 2 ^ 512 +
    (smallSigma1 (word window 1) + word window 6 + smallSigma0 (word window 14) + word window 15) % 2 ^ 32

def nextState (state roundWord : Nat) : Nat :=
  evaluated (word state 3) fun e =>
  evaluated (word state 7) fun a =>
  evaluated (word state 0 + bigSigma1 e + choose e (word state 2) (word state 1) + roundWord) fun t₁ =>
  evaluated (bigSigma0 a + majority a (word state 6) (word state 5)) fun t₂ =>
    ((t₁ + t₂) % 2 ^ 32) * 2 ^ 224 + (state >>> 160) * 2 ^ 128 + ((word state 4 + t₁) % 2 ^ 32) * 2 ^ 96 +
      (state >>> 32) % 2 ^ 96

def rounds : List Nat → Nat → Nat → Nat
  | [], _, state => state
  | k :: rest, window, state =>
      evaluated window fun window =>
      evaluated (nextState state (k + word window 15)) fun state => rounds rest (nextWindow window) state

def addWords (x y : Nat) : Nat :=
  (List.range 8).foldl (fun sum places => sum + ((word x places + word y places) % 2 ^ 32) * 2 ^ (32 * places)) 0

def compress (state block : Nat) : Nat := addWords state (rounds roundConstants block state)

def bigEndian (bytes : List UInt8) : Nat :=
  bytes.foldl (fun n byte => evaluated n fun n => n * 256 + byte.toNat) 0

-- The message, a one bit, zeros, and the message's length in bits.
def padded (message : List UInt8) : List UInt8 :=
  message ++ (0x80 : UInt8) :: List.replicate ((119 - message.length % 64) % 64) (0 : UInt8) ++
    (List.range 8).reverse.map fun i => ((message.length * 8) >>> (8 * i)).toUInt8

def absorb : Nat → Nat → List UInt8 → Nat
  | 0, state, _ => state
  | blocks + 1, state, bytes =>
      evaluated (compress state (bigEndian (bytes.take 64))) fun state => absorb blocks state (bytes.drop 64)

def sha256 (message : List UInt8) : List UInt8 :=
  let bytes := padded message
  let state := absorb (bytes.length / 64) initialState bytes
  (List.range 32).reverse.map fun i => (state >>> (8 * i)).toUInt8

theorem length_sha256 (message : List UInt8) : (sha256 message).length = 32 := by simp [sha256]

example : sha256 [0x61, 0x62, 0x63] =
    [0xba, 0x78, 0x16, 0xbf, 0x8f, 0x01, 0xcf, 0xea, 0x41, 0x41, 0x40, 0xde, 0x5d, 0xae, 0x22, 0x23,
     0xb0, 0x03, 0x61, 0xa3, 0x96, 0x17, 0x7a, 0x9c, 0xb4, 0x10, 0xff, 0x61, 0xf2, 0x00, 0x15, 0xad] := by
  decide +kernel

end AuditableMcp.Reference.Sha256
