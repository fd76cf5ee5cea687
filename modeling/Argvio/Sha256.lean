import Mathlib.Data.List.Basic
import Mathlib.Algebra.Group.Nat.Defs

namespace sha256

/-- The constants of the 64 rounds. -/
def roundConstants : List UInt32 :=
  [0x428a2f98, 0x71374491, 0xb5c0fbcf, 0xe9b5dba5, 0x3956c25b, 0x59f111f1, 0x923f82a4, 0xab1c5ed5,
    0xd807aa98, 0x12835b01, 0x243185be, 0x550c7dc3, 0x72be5d74, 0x80deb1fe, 0x9bdc06a7, 0xc19bf174,
    0xe49b69c1, 0xefbe4786, 0x0fc19dc6, 0x240ca1cc, 0x2de92c6f, 0x4a7484aa, 0x5cb0a9dc, 0x76f988da,
    0x983e5152, 0xa831c66d, 0xb00327c8, 0xbf597fc7, 0xc6e00bf3, 0xd5a79147, 0x06ca6351, 0x14292967,
    0x27b70a85, 0x2e1b2138, 0x4d2c6dfc, 0x53380d13, 0x650a7354, 0x766a0abb, 0x81c2c92e, 0x92722c85,
    0xa2bfe8a1, 0xa81a664b, 0xc24b8b70, 0xc76c51a3, 0xd192e819, 0xd6990624, 0xf40e3585, 0x106aa070,
    0x19a4c116, 0x1e376c08, 0x2748774c, 0x34b0bcb5, 0x391c0cb3, 0x4ed8aa4a, 0x5b9cca4f, 0x682e6ff3,
    0x748f82ee, 0x78a5636f, 0x84c87814, 0x8cc70208, 0x90befffa, 0xa4506ceb, 0xbef9a3f7, 0xc67178f2]

/-- The eight words that are carried from block to block. -/
structure Chain where
  a : UInt32
  b : UInt32
  c : UInt32
  d : UInt32
  e : UInt32
  f : UInt32
  g : UInt32
  h : UInt32

def Chain.initial : Chain :=
  ⟨0x6a09e667, 0xbb67ae85, 0x3c6ef372, 0xa54ff53a, 0x510e527f, 0x9b05688c, 0x1f83d9ab, 0x5be0cd19⟩

def Chain.add (s t : Chain) : Chain :=
  ⟨s.a + t.a, s.b + t.b, s.c + t.c, s.d + t.d, s.e + t.e, s.f + t.f, s.g + t.g, s.h + t.h⟩

def rotateRight (x n : UInt32) : UInt32 := x >>> n ||| x <<< (32 - n)

/-- A round, with its constant and the word of the block's schedule. -/
def Chain.round (s : Chain) (input : UInt32 × UInt32) : Chain :=
  let mix1 := rotateRight s.e 6 ^^^ rotateRight s.e 11 ^^^ rotateRight s.e 25
  let choice := (s.e &&& s.f) ^^^ (~~~s.e &&& s.g)
  let temp := s.h + mix1 + choice + input.1 + input.2
  let mix0 := rotateRight s.a 2 ^^^ rotateRight s.a 13 ^^^ rotateRight s.a 22
  let majority := (s.a &&& s.b) ^^^ (s.a &&& s.c) ^^^ (s.b &&& s.c)
  ⟨temp + (mix0 + majority), s.a, s.b, s.c, s.d + temp, s.e, s.f, s.g⟩

/-- A schedule with more words, the latest first. -/
def extend : ℕ → List UInt32 → List UInt32
  | 0, words => words
  | n + 1, words =>
    let w2 := words.getD 1 0
    let w15 := words.getD 14 0
    let mix0 := rotateRight w15 7 ^^^ rotateRight w15 18 ^^^ w15 >>> 3
    let mix1 := rotateRight w2 17 ^^^ rotateRight w2 19 ^^^ w2 >>> 10
    extend n ((mix1 + words.getD 6 0 + mix0 + words.getD 15 0) :: words)

/-- The chain after a block of 16 words. -/
def Chain.block (s : Chain) (words : List UInt32) : Chain :=
  s.add ((roundConstants.zip (extend 48 words.reverse).reverse).foldl Chain.round s)

/-- Bytes in groups of four, the most significant first. -/
def bigEndian : List UInt8 → List UInt32
  | a :: b :: c :: d :: rest =>
    (a.toUInt32 <<< 24 ||| b.toUInt32 <<< 16 ||| c.toUInt32 <<< 8 ||| d.toUInt32) :: bigEndian rest
  | _ => []

def bytes (word : UInt32) : List UInt8 :=
  [(word >>> 24).toUInt8, (word >>> 16).toUInt8, (word >>> 8).toUInt8, word.toUInt8]

/-- A message, a one bit, zeros up to a whole number of blocks, and the number of bits. -/
def padded (message : List UInt8) : List UInt32 :=
  let bits := 8 * message.length
  bigEndian (message ++ 0x80 :: List.replicate ((119 - message.length % 64) % 64) 0) ++
    [UInt32.ofNat (bits / 2 ^ 32), UInt32.ofNat bits]

def sum256 (message : List UInt8) : List UInt8 :=
  let words := padded message
  let s := (List.range (words.length / 16)).foldl (fun s i => s.block ((words.drop (16 * i)).take 16)) Chain.initial
  [s.a, s.b, s.c, s.d, s.e, s.f, s.g, s.h].flatMap bytes

example : (sum256 [0x61, 0x62, 0x63]).take 4 = [0xba, 0x78, 0x16, 0xbf] := by decide +kernel

end sha256
