import AuditLog.Python.Text

/-!
# `hashlib.sha256(data).hexdigest()`

The development treats the digest as a parameter wherever it can; this file is
the function the service passes for it, so that results can be evaluated on
concrete tables. Words are natural numbers below `2 ^ 32`.
-/

namespace AuditLog

namespace Sha256

/-- `2 ^ 32`, as a literal: the kernel computes with it. -/
abbrev modulus : Nat := 4294967296

/-- `f n`, with `n` evaluated first: the kernel would pass it on unevaluated. -/
def strict {α : Type} (n : Nat) (f : Nat → α) : α :=
  match n with
  | 0 => f 0
  | .succ k => f (.succ k)

def rotr (n x : Nat) : Nat := (x >>> n) ||| ((x <<< (32 - n)) % modulus)

def ch (x y z : Nat) : Nat := (x &&& y) ^^^ ((modulus - 1 - x) &&& z)

def maj (x y z : Nat) : Nat := (x &&& y) ^^^ (x &&& z) ^^^ (y &&& z)

def bigSigma0 (x : Nat) : Nat := rotr 2 x ^^^ rotr 13 x ^^^ rotr 22 x

def bigSigma1 (x : Nat) : Nat := rotr 6 x ^^^ rotr 11 x ^^^ rotr 25 x

def smallSigma0 (x : Nat) : Nat := rotr 7 x ^^^ rotr 18 x ^^^ (x >>> 3)

def smallSigma1 (x : Nat) : Nat := rotr 17 x ^^^ rotr 19 x ^^^ (x >>> 10)

def roundConstants : List Nat := [
  0x428a2f98, 0x71374491, 0xb5c0fbcf, 0xe9b5dba5, 0x3956c25b, 0x59f111f1, 0x923f82a4, 0xab1c5ed5,
  0xd807aa98, 0x12835b01, 0x243185be, 0x550c7dc3, 0x72be5d74, 0x80deb1fe, 0x9bdc06a7, 0xc19bf174,
  0xe49b69c1, 0xefbe4786, 0x0fc19dc6, 0x240ca1cc, 0x2de92c6f, 0x4a7484aa, 0x5cb0a9dc, 0x76f988da,
  0x983e5152, 0xa831c66d, 0xb00327c8, 0xbf597fc7, 0xc6e00bf3, 0xd5a79147, 0x06ca6351, 0x14292967,
  0x27b70a85, 0x2e1b2138, 0x4d2c6dfc, 0x53380d13, 0x650a7354, 0x766a0abb, 0x81c2c92e, 0x92722c85,
  0xa2bfe8a1, 0xa81a664b, 0xc24b8b70, 0xc76c51a3, 0xd192e819, 0xd6990624, 0xf40e3585, 0x106aa070,
  0x19a4c116, 0x1e376c08, 0x2748774c, 0x34b0bcb5, 0x391c0cb3, 0x4ed8aa4a, 0x5b9cca4f, 0x682e6ff3,
  0x748f82ee, 0x78a5636f, 0x84c87814, 0x8cc70208, 0x90befffa, 0xa4506ceb, 0xbef9a3f7, 0xc67178f2]

/-- The eight working variables. -/
structure State where
  a : Nat
  b : Nat
  c : Nat
  d : Nat
  e : Nat
  f : Nat
  g : Nat
  h : Nat

def initial : State where
  a := 0x6a09e667
  b := 0xbb67ae85
  c := 0x3c6ef372
  d := 0xa54ff53a
  e := 0x510e527f
  f := 0x9b05688c
  g := 0x1f83d9ab
  h := 0x5be0cd19

def round (s : State) (k w : Nat) : State :=
  match s with
  | ⟨a, b, c, d, e, f, g, h⟩ =>
    strict ((h + bigSigma1 e + ch e f g + k + w) % modulus) fun t1 =>
    strict ((bigSigma0 a + maj a b c + t1) % modulus) fun a' =>
    strict ((d + t1) % modulus) fun e' =>
    ⟨a', a, b, c, e', e, f, g⟩

/-- All rounds of a block; the message schedule is the window of its last 16
words, oldest first, so that each round shifts one word in. -/
def rounds : List Nat → List Nat → State → State
  -- The new word is `w16`; the round itself uses the oldest one.
  | k :: ks, [w0, w1, w2, w3, w4, w5, w6, w7, w8, w9, w10, w11, w12, w13, w14, w15], s =>
    strict ((smallSigma1 w14 + w9 + smallSigma0 w1 + w0) % modulus) fun w16 =>
    rounds ks [w1, w2, w3, w4, w5, w6, w7, w8, w9, w10, w11, w12, w13, w14, w15, w16]
      (round s k w0)
  | _, _, s => s

def compress (s : State) (block : List Nat) : State :=
  match rounds roundConstants block s with
  | ⟨a, b, c, d, e, f, g, h⟩ =>
    ⟨(s.a + a) % modulus, (s.b + b) % modulus, (s.c + c) % modulus, (s.d + d) % modulus,
      (s.e + e) % modulus, (s.f + f) % modulus, (s.g + g) % modulus, (s.h + h) % modulus⟩

/-- Big-endian 32-bit words. -/
def words : List Nat → List Nat
  | a :: b :: c :: d :: rest =>
    strict (a <<< 24 + b <<< 16 + c <<< 8 + d) fun word => word :: words rest
  | _ => []

def blocks : Nat → List Nat → List (List Nat)
  | 0, _ => []
  | n + 1, ws => ws.take 16 :: blocks n (ws.drop 16)

/-- The padded message: a one bit, zeros, and the length in bits. -/
def pad (m : List Nat) : List Nat :=
  m ++ 0x80 :: List.replicate ((119 - m.length % 64) % 64) 0 ++
    [56, 48, 40, 32, 24, 16, 8, 0].map fun s => ((8 * m.length) >>> s) % 256

def digest (m : List Nat) : State :=
  let ws := words (pad m)
  (blocks (ws.length / 16) ws).foldl compress initial

def hex32 (x : Nat) : List Char :=
  [28, 24, 20, 16, 12, 8, 4, 0].map fun s => Nat.digitChar ((x >>> s) % 16)

def hexdigest (data : Bytes) : PyStr :=
  let s := digest (data.map UInt8.toNat)
  PyStr.ofChars (hex32 s.a ++ hex32 s.b ++ hex32 s.c ++ hex32 s.d ++
    hex32 s.e ++ hex32 s.f ++ hex32 s.g ++ hex32 s.h)

example : hexdigest (utf8 "abc".toList) =
    "ba7816bf8f01cfea414140de5dae2223b00361a396177a9cb410ff61f20015ad" := by
  decide +kernel

end Sha256

end AuditLog
