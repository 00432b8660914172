import AegisHV.Lib.Bits
import Mathlib.Analysis.SpecialFunctions.Pow.NthRootLemmas
import Mathlib.NumberTheory.PrimeCounting

/-! The secure hash algorithm SHA-256 of FIPS 180-4, for strings of bits. -/

namespace Sys.Sha256

abbrev Word := BitVec 32

/-! Functions and constants (sections 3.2 and 4 of the standard). -/

def rotr (n : ℕ) (x : Word) : Word := (x >>> n) ||| (x <<< (32 - n))

def shr (n : ℕ) (x : Word) : Word := x >>> n

def ch (x y z : Word) : Word := (x &&& y) ^^^ (~~~x &&& z)

def maj (x y z : Word) : Word := (x &&& y) ^^^ (x &&& z) ^^^ (y &&& z)

def bigSigma0 (x : Word) : Word := rotr 2 x ^^^ rotr 13 x ^^^ rotr 22 x

def bigSigma1 (x : Word) : Word := rotr 6 x ^^^ rotr 11 x ^^^ rotr 25 x

def sigma0 (x : Word) : Word := rotr 7 x ^^^ rotr 18 x ^^^ shr 3 x

def sigma1 (x : Word) : Word := rotr 17 x ^^^ rotr 19 x ^^^ shr 10 x

/-- The first thirty-two bits of the fractional part of the `n`-th root of the prime number with
index `t`. -/
noncomputable def fraction (n t : ℕ) : Word :=
  BitVec.ofNat 32 (Nat.nthRoot n (Nat.nth Nat.Prime t * 2 ^ (32 * n)))

/-- The constant words. -/
noncomputable def k (t : ℕ) : Word := fraction 3 t

/-! Preprocessing (section 5). -/

/-- The number of zero bits in the padding of a message of `l` bits. -/
noncomputable def zeros (l : ℕ) : ℕ := sInf { k | (l + 1 + k) % 512 = 448 }

noncomputable def pad (message : List Bool) : List Bool :=
  message ++ true :: (List.replicate (zeros message.length) false ++ toBits 64 message.length)

/-- The words of a block. -/
def parse (block : List Bool) : List Word :=
  (chunksExact 32 block).map fun bits => BitVec.ofNat 32 (fromBits bits)

/-- Eight words: a hash value, or the working variables. -/
structure Eight where
  a : Word
  b : Word
  c : Word
  d : Word
  e : Word
  f : Word
  g : Word
  h : Word

namespace Eight

def toList (s : Eight) : List Word := [s.a, s.b, s.c, s.d, s.e, s.f, s.g, s.h]

def add (s t : Eight) : Eight :=
  ⟨s.a + t.a, s.b + t.b, s.c + t.c, s.d + t.d, s.e + t.e, s.f + t.f, s.g + t.g, s.h + t.h⟩

end Eight

noncomputable def initial : Eight :=
  ⟨fraction 2 0, fraction 2 1, fraction 2 2, fraction 2 3, fraction 2 4, fraction 2 5, fraction 2 6,
    fraction 2 7⟩

/-! Hash computation (section 6.2). -/

/-- The message schedule of a block. -/
def schedule (m : List Word) (t : ℕ) : Word :=
  if t < 16 then m.getD t 0
  else sigma1 (schedule m (t - 2)) + schedule m (t - 7) + sigma0 (schedule m (t - 15)) +
    schedule m (t - 16)
termination_by t

/-- One turn, with the constant and the word of the schedule. -/
def turn (kt wt : Word) (s : Eight) : Eight :=
  let t1 := s.h + bigSigma1 s.e + ch s.e s.f s.g + kt + wt
  let t2 := bigSigma0 s.a + maj s.a s.b s.c
  ⟨t1 + t2, s.a, s.b, s.c, s.d + t1, s.e, s.f, s.g⟩

noncomputable def compress (h : Eight) (m : List Word) : Eight :=
  ((List.range 64).foldl (fun s t => turn (k t) (schedule m t) s) h).add h

noncomputable def hash (message : List Bool) : Eight :=
  (chunksExact 512 (pad message)).foldl (fun h block => compress h (parse block)) initial

/-- The message digest, of 256 bits. -/
noncomputable def digest (message : List Bool) : List Bool :=
  (hash message).toList.flatMap fun word => toBits 32 word.toNat

/-! The padding of a string of bytes. -/

theorem zeros_bytes (n : ℕ) : zeros (8 * n) = 7 + 8 * ((119 - n % 64) % 64) := by
  refine IsLeast.csInf_eq ⟨?_, fun k hk => ?_⟩
  · simp only [Set.mem_ofPred_eq]
    omega
  · simp only [Set.mem_ofPred_eq] at hk
    omega

/-- The padding in bytes, behind a message of `n` bytes. -/
def padding (n : ℕ) : List UInt8 :=
  0x80 :: (List.replicate ((119 - n % 64) % 64) 0 ++ toBe 8 (8 * n))

theorem bitsOf_zeros (n : ℕ) : bitsOf (List.replicate n 0) = List.replicate (8 * n) false := by
  induction n with
  | zero => rfl
  | succ n ih =>
    rw [List.replicate_succ, bitsOf, List.flatMap_cons, Nat.mul_succ, Nat.add_comm,
      List.replicate_add]
    rw [bitsOf] at ih
    rw [ih]
    rfl

theorem pad_bitsOf (message : List UInt8) :
    pad (bitsOf message) = bitsOf (message ++ padding message.length) := by
  have hfirst : toBits 8 (0x80 : UInt8).toNat = true :: List.replicate 7 false := by decide
  rw [pad, length_bitsOf, zeros_bytes, bitsOf_append, padding, bitsOf, bitsOf, List.flatMap_cons,
    hfirst, List.replicate_add, List.append_assoc]
  congr 3
  have hrest := bitsOf_append (List.replicate ((119 - message.length % 64) % 64) 0)
    (toBe 8 (8 * message.length))
  rw [bitsOf_zeros, bitsOf_toBe] at hrest
  exact hrest.symm

end Sys.Sha256
