import AegisHV.Spec.Integrity

/-! The hash of `linux_integrity.rs` is SHA-256: its constants are the roots of the standard, its
block function is the standard's, and cutting the message into pieces makes no difference. -/

namespace AegisHV.Integrity.Sha256
open Sys List

/-! The constants. -/

variable {n t : ℕ}

/-- The first sixty-four prime numbers. -/
def primes : List ℕ := [
  2, 3, 5, 7, 11, 13, 17, 19, 23, 29, 31, 37, 41, 43, 47, 53, 59, 61, 67, 71, 73, 79, 83, 89, 97, 101,
  103, 107, 109, 113, 127, 131, 137, 139, 149, 151, 157, 163, 167, 173, 179, 181, 191, 193, 197, 199,
  211, 223, 227, 229, 233, 239, 241, 251, 257, 263, 269, 271, 277, 281, 283, 293, 307, 311]

/-- The root of a prime number, scaled by `2 ^ 32`, with a word as its fraction. -/
def rootWith (n p : ℕ) (word : Word) : ℕ :=
  (List.range 17).countP (fun c => (c + 1) ^ n ≤ p) * 2 ^ 32 + word.toNat

/-- The members of a filtered range are counted by their place in it. -/
theorem count_getD {p : ℕ → Prop} [DecidablePred p] (N : ℕ) :
    Nat.count p N = ((List.range N).filter p).length ∧ ∀ t < ((List.range N).filter p).length,
      p (((List.range N).filter p).getD t 0) ∧
        Nat.count p (((List.range N).filter p).getD t 0) = t := by
  induction N with
  | zero => exact ⟨rfl, fun t ht => absurd ht (Nat.not_lt_zero t)⟩
  | succ N ih =>
    obtain ⟨hcount, hall⟩ := ih
    rw [range_succ, filter_append, length_append, Nat.count_succ, hcount]
    by_cases hN : p N
    · rw [filter_singleton, decide_eq_true hN, if_pos hN]
      refine ⟨rfl, fun t ht => ?_⟩
      rcases Nat.lt_succ_iff_lt_or_eq.1 ht with hold | rfl
      · rw [getD_append _ _ _ _ hold]
        exact hall t hold
      · rw [getD_append_right _ _ _ _ le_rfl, Nat.sub_self]
        exact ⟨hN, hcount⟩
    · rw [filter_singleton, decide_eq_false hN, if_neg hN]
      simpa using hall

theorem primes_eq : (List.range 312).filter Nat.Prime = primes := by
  have hsieve : (List.range 312).filter
      (fun n => 2 ≤ n ∧ ∀ m < 18, 2 ≤ m → m * m ≤ n → ¬m ∣ n) = primes := by decide +kernel
  rw [← hsieve]
  refine filter_congr fun n hn => decide_eq_decide.2 ?_
  have hlt := mem_range.1 hn
  rw [Nat.prime_def_le_sqrt]
  refine and_congr_right fun _ => ⟨fun h m _ h2 hm => h m h2 (Nat.le_sqrt.2 hm), fun h m h2 hm => ?_⟩
  have hsq := Nat.le_sqrt.1 hm
  exact h m (by nlinarith) h2 hsq

theorem fraction_getD {words : List Word} (ht : t < 64)
    (hlo : rootWith n (primes.getD t 0) (words.getD t 0) ^ n ≤ primes.getD t 0 * 2 ^ (32 * n))
    (hhi : primes.getD t 0 * 2 ^ (32 * n) <
      (rootWith n (primes.getD t 0) (words.getD t 0) + 1) ^ n) :
    Sys.Sha256.fraction n t = words.getD t 0 := by
  have hall := (count_getD (p := Nat.Prime) 312).2
  rw [primes_eq] at hall
  obtain ⟨hprime, hindex⟩ := hall t ht
  rw [Sys.Sha256.fraction]
  nth_rewrite 1 [← hindex]
  rw [Nat.nth_count hprime, Nat.nthRoot_eq_of_le_of_lt hlo hhi]
  apply BitVec.eq_of_toNat_eq
  rw [BitVec.toNat_ofNat, rootWith]
  omega

theorem k_eq (ht : t < 64) : Sys.Sha256.k t = K.getD t 0 := by
  have hall : ∀ t < 64,
      rootWith 3 (primes.getD t 0) (K.getD t 0) ^ 3 ≤ primes.getD t 0 * 2 ^ (32 * 3) ∧
      primes.getD t 0 * 2 ^ (32 * 3) < (rootWith 3 (primes.getD t 0) (K.getD t 0) + 1) ^ 3 := by
    decide +kernel
  exact fraction_getD ht (hall t ht).1 (hall t ht).2

theorem initial_eq : Sys.Sha256.initial = new.state := by
  have hall : ∀ t < 8,
      rootWith 2 (primes.getD t 0) (new.state.toList.getD t 0) ^ 2 ≤
        primes.getD t 0 * 2 ^ (32 * 2) ∧
      primes.getD t 0 * 2 ^ (32 * 2) <
        (rootWith 2 (primes.getD t 0) (new.state.toList.getD t 0) + 1) ^ 2 := by decide +kernel
  have hword : ∀ t < 8, Sys.Sha256.fraction 2 t = new.state.toList.getD t 0 := fun t ht =>
    fraction_getD (by omega) (hall t ht).1 (hall t ht).2
  rw [Sys.Sha256.initial, hword 0 (by norm_num), hword 1 (by norm_num), hword 2 (by norm_num),
    hword 3 (by norm_num), hword 4 (by norm_num), hword 5 (by norm_num), hword 6 (by norm_num),
    hword 7 (by norm_num)]
  rfl

/-! The function of a block. -/

theorem rotateRight_eq (h : n < 32) (x : Word) : x.rotateRight n = Sys.Sha256.rotr n x := by
  rw [BitVec.rotateRight_def, Nat.mod_eq_of_lt h, Sys.Sha256.rotr]

/-- The words of a block of bytes. -/
def wordsOf (block : List UInt8) : List Word :=
  (chunksExact 4 block).map fun chunk => BitVec.ofNat 32 (fromBe chunk)

theorem parse_bitsOf (block : List UInt8) : Sys.Sha256.parse (bitsOf block) = wordsOf block := by
  have hchunks := chunksExact_bitsOf 4 block
  rw [Sys.Sha256.parse, hchunks, map_map]
  refine map_congr_left fun chunk _ => ?_
  rw [Function.comp_apply, fromBits_bitsOf]

/-- Setting slot after slot from `before` on overwrites as many zeros. -/
theorem foldl_set {α : Type} (f : α → Word) (l : List α) :
    ∀ (before : List Word) (n : ℕ), l.length ≤ n →
      (l.zipIdx before.length).foldl (fun w a => w.set a.2 (f a.1))
        (before ++ List.replicate n 0) =
        before ++ l.map f ++ List.replicate (n - l.length) 0 := by
  induction l with
  | nil => simp
  | cons a l ih =>
    intro before n hn
    obtain ⟨n, rfl⟩ : ∃ m, n = m + 1 := ⟨n - 1, by simp at hn; omega⟩
    have hset : (before ++ List.replicate (n + 1) 0).set before.length (f a) =
        (before ++ [f a]) ++ List.replicate n 0 := by
      simp [replicate_succ]
    have hrest := ih (before ++ [f a]) n (by simpa using hn)
    rw [length_append, length_singleton] at hrest
    rw [zipIdx_cons, foldl_cons, hset, hrest]
    simp

theorem extend_spec {w : List Word} {m : List Word} {idx : ℕ} (hlen : w.length = 64) (hidx : 16 ≤ idx)
    (hlt : idx < 64) (h : ∀ t < idx, w.getD t 0 = Sys.Sha256.schedule m t) :
    (extend w idx).length = 64 ∧
      ∀ t < idx + 1, (extend w idx).getD t 0 = Sys.Sha256.schedule m t := by
  refine ⟨by rw [extend, length_set, hlen], fun t ht => ?_⟩
  rcases Nat.lt_succ_iff_lt_or_eq.1 ht with hold | rfl
  · rw [← h t hold, extend, getD_eq_getElem?_getD, getElem?_set_ne (by omega),
      getD_eq_getElem?_getD]
  · rw [extend, getD_eq_getElem?_getD, getElem?_set_self (by omega), Sys.Sha256.schedule, if_neg (by omega)]
    simp only [h (t - 2) (by omega), h (t - 7) (by omega), h (t - 15) (by omega),
      h (t - 16) (by omega), Sys.Sha256.sigma0, Sys.Sha256.sigma1, Sys.Sha256.shr,
      rotateRight_eq (show 7 < 32 by norm_num), rotateRight_eq (show 18 < 32 by norm_num),
      rotateRight_eq (show 17 < 32 by norm_num), rotateRight_eq (show 19 < 32 by norm_num)]
    ac_rfl

variable {block : List UInt8}

theorem expand_spec (h : block.length = 64) :
    ∀ t < 64, (expand block).getD t 0 = Sys.Sha256.schedule (wordsOf block) t := by
  have hcount : (chunksExact 4 block).length = 16 := by simp [chunksExact, h]
  have hfirst := foldl_set (fun chunk => BitVec.ofNat 32 (fromBe chunk)) (chunksExact 4 block) [] 64
    (by omega)
  have htake : (chunksExact 4 block).zipIdx.take 16 = (chunksExact 4 block).zipIdx :=
    take_of_length_le (by rw [length_zipIdx, hcount])
  have hwords : (wordsOf block).length = 16 := by rw [wordsOf, length_map, hcount]
  have main : ∀ n ≤ 48, ∀ w, w = (List.range' 16 n).foldl extend
      (wordsOf block ++ List.replicate 48 0) → w.length = 64 ∧
        ∀ t < 16 + n, w.getD t 0 = Sys.Sha256.schedule (wordsOf block) t := by
    intro n
    induction n with
    | zero =>
      rintro - w rfl
      refine ⟨by simp [hwords], fun t ht => ?_⟩
      rw [range'_zero, foldl_nil, Sys.Sha256.schedule, if_pos ht, getD_append _ _ _ _ (by omega)]
    | succ n ih =>
      rintro hn w rfl
      obtain ⟨hlen, hw⟩ := ih (by omega) _ rfl
      rw [range'_concat, foldl_append, foldl_cons, Nat.one_mul]
      exact extend_spec hlen (by omega) (by omega) hw
  intro t ht
  simp only [nil_append, length_nil, hcount] at hfirst
  rw [expand, htake]
  exact (main 48 le_rfl _ (by rw [hfirst]; rfl)).2 t ht

theorem mix_eq {w : List Word} {m : List Word} (ht : t < 64)
    (hw : w.getD t 0 = Sys.Sha256.schedule m t) (s : HashState) :
    mix w s t = Sys.Sha256.turn (Sys.Sha256.k t) (Sys.Sha256.schedule m t) s := by
  rw [mix, hw, ← k_eq ht, ]
  rfl

theorem compress_eq (h : block.length = 64) (state : HashState) :
    compress state block = Sys.Sha256.compress state (Sys.Sha256.parse (bitsOf block)) := by
  have hfold : (List.range 64).foldl (mix (expand block)) state = (List.range 64).foldl
      (fun s t => Sys.Sha256.turn (Sys.Sha256.k t) (Sys.Sha256.schedule (wordsOf block) t) s) state :=
    foldl_ext _ _ _ fun s t ht =>
      mix_eq (mem_range.1 ht) (expand_spec h t (mem_range.1 ht)) s
  rw [compress, hfold, Sys.Sha256.compress, parse_bitsOf, Sys.Sha256.Eight.add]
  simp only [BitVec.add_comm]

/-! A message in pieces. -/

/-- The state after the blocks of a string. -/
def chain (bytes : List UInt8) : HashState := (chunksExact 64 bytes).foldl compress new.state

theorem chain_block {blocks : List UInt8} (hblocks : blocks.length % 64 = 0)
    (hblock : block.length = 64) : chain (blocks ++ block) = compress (chain blocks) block := by
  have hlen : blocks.length = blocks.length / 64 * 64 := by omega
  have hlast : chunksExact 64 block = [block] := by
    have hcons : chunksExact 64 (block ++ []) = block :: chunksExact 64 [] :=
      chunksExact_cons (by norm_num) hblock
    rwa [append_nil] at hcons
  rw [chain, chunksExact_append (by norm_num) hlen, hlast, foldl_append]
  rfl

/-- The hasher has compressed `blocks` and holds `rest` in its buffer. -/
structure Holds (hasher : Sha256) (blocks rest : List UInt8) : Prop where
  whole : blocks.length % 64 = 0
  short : rest.length < 64
  state : hasher.state = chain blocks
  bufferLen : hasher.bufferLen = rest.length
  size : hasher.buffer.length = 64
  held : hasher.buffer.take rest.length = rest

theorem bitLen_mk (state : HashState) (bitLen : ℕ) (buffer : List UInt8) (bufferLen : ℕ) :
    (Sha256.mk state bitLen buffer bufferLen).bitLen = bitLen := rfl

theorem holds_new : Holds new [] [] := ⟨rfl, by norm_num, rfl, rfl, rfl, rfl⟩

variable {bytes : List UInt8}

theorem take_splice {new : List UInt8} {start : ℕ} (h : start ≤ bytes.length) :
    (splice bytes start new).take (start + new.length) = bytes.take start ++ new := by
  exact take_left' (by rw [length_append, length_take_of_le h])

theorem absorb_spec (turns : ℕ) :
    ∀ {blocks input : List UInt8}, blocks.length % 64 = 0 → input.length ≤ turns →
      ∃ more rest, absorb turns (chain blocks) input = (chain (blocks ++ more), rest) ∧
        input = more ++ rest ∧ (blocks ++ more).length % 64 = 0 ∧ rest.length < 64 := by
  induction turns with
  | zero =>
    intro blocks input hblocks hinput
    exact ⟨[], input, by simp [absorb], rfl, by simpa using hblocks, by omega⟩
  | succ turns ih =>
    intro blocks input hblocks hinput
    rw [absorb]
    by_cases hlong : 64 ≤ input.length
    · have htake : (input.take 64).length = 64 := length_take_of_le hlong
      have hblocks' : (blocks ++ input.take 64).length % 64 = 0 := by
        rw [length_append]
        omega
      have hdrop : (input.drop 64).length ≤ turns := by
        rw [length_drop]
        omega
      obtain ⟨more, rest, hrun, hsplit, hwhole, hshort⟩ := ih hblocks' hdrop
      refine ⟨input.take 64 ++ more, rest, ?_, ?_, ?_, hshort⟩
      · rw [if_pos hlong, ← chain_block hblocks htake, hrun, append_assoc]
      · rw [append_assoc, ← hsplit, take_append_drop]
      · rwa [← append_assoc]
    · rw [if_neg hlong]
      exact ⟨[], input, by simp, rfl, by simpa using hblocks, by omega⟩

theorem fill_spec {hasher : Sha256} {blocks rest : List UInt8} (h : Holds hasher blocks rest)
    (input : List UInt8) :
    ∃ blocks' rest', Holds (hasher.fill input).1 blocks' rest' ∧
      blocks' ++ rest' ++ (hasher.fill input).2 = blocks ++ rest ++ input ∧
      (rest' = [] ∨ (hasher.fill input).2 = []) ∧ (hasher.fill input).1.bitLen = hasher.bitLen := by
  have hshort := h.short
  have hsize := h.size
  have hwhole := h.whole
  rw [fill, h.bufferLen]
  set take := min (64 - rest.length) input.length with htake
  have hlen : (input.take take).length = take := length_take_of_le (by omega)
  have hbuffer : (splice hasher.buffer rest.length (input.take take)).take (rest.length + take) =
      rest ++ input.take take := by
    have hspliced : (splice hasher.buffer rest.length (input.take take)).take
        (rest.length + (input.take take).length) = hasher.buffer.take rest.length ++ input.take take :=
      take_splice (by omega)
    rwa [hlen, h.held] at hspliced
  have hsize' : (splice hasher.buffer rest.length (input.take take)).length = 64 := by
    rw [splice_length (by omega), hsize]
  by_cases hfull : rest.length + take = 64
  · rw [if_pos hfull]
    rw [take_of_length_le (by omega)] at hbuffer
    have hblock : (rest ++ input.take take).length = 64 := by rw [length_append, hlen, hfull]
    refine ⟨blocks ++ (rest ++ input.take take), [], ⟨?_, by simp, ?_, ?_, hsize', ?_⟩, ?_,
      Or.inl rfl, ?_⟩
    · rw [length_append]
      omega
    · rw [chain_block h.whole hblock, hbuffer, h.state]
    · rfl
    · exact take_zero
    · simp
    · exact bitLen_mk _ _ _ _
  · rw [if_neg hfull]
    have hall : take = input.length := by omega
    rw [hall, take_length] at hbuffer hlen ⊢
    refine ⟨blocks, rest ++ input, ⟨h.whole, ?_, h.state, ?_, ?_, ?_⟩, ?_, Or.inr ?_, ?_⟩
    · rw [length_append]
      omega
    · rw [length_append]
    · rw [hall, take_length] at hsize'
      exact hsize'
    · rwa [length_append]
    · simp
    · simp
    · exact bitLen_mk _ _ _ _

theorem drain_spec {hasher : Sha256} {blocks : List UInt8} (h : Holds hasher blocks [])
    (input : List UInt8) : ∃ blocks' rest', Holds (hasher.drain input) blocks' rest' ∧
      blocks' ++ rest' = blocks ++ input ∧ (hasher.drain input).bitLen = hasher.bitLen := by
  obtain ⟨more, rest, hrun, hsplit, hwhole, hshort⟩ := absorb_spec input.length h.whole le_rfl
  rw [drain, h.state, hrun]
  simp only
  refine ⟨blocks ++ more, rest, ?_, by rw [append_assoc, ← hsplit], ?_⟩
  · by_cases hempty : rest.isEmpty = true
    · obtain rfl := isEmpty_iff.1 hempty
      exact ⟨hwhole, hshort, rfl, h.bufferLen, h.size, rfl⟩
    · rw [if_neg hempty]
      have hle : 0 + rest.length ≤ hasher.buffer.length := by
        rw [h.size]
        omega
      have hspliced : (splice hasher.buffer 0 rest).take (0 + rest.length) =
          hasher.buffer.take 0 ++ rest := take_splice (Nat.zero_le _)
      rw [Nat.zero_add, take_zero] at hspliced
      exact ⟨hwhole, hshort, rfl, rfl, by rw [splice_length hle, h.size], hspliced⟩
  · split_ifs <;> rfl

theorem drain_nil (hasher : Sha256) : hasher.drain [] = hasher := rfl

theorem update_spec {hasher : Sha256} {blocks rest : List UInt8} (h : Holds hasher blocks rest)
    (input : List UInt8) : ∃ blocks' rest', Holds (hasher.update input) blocks' rest' ∧
      blocks' ++ rest' = blocks ++ rest ++ input ∧
      (hasher.update input).bitLen = (hasher.bitLen + input.length * 8 % 2 ^ 64) % 2 ^ 64 := by
  rw [update]
  set counted : Sha256 :=
    { hasher with bitLen := (hasher.bitLen + input.length * 8 % 2 ^ 64) % 2 ^ 64 }
  have hcounted : Holds counted blocks rest :=
    ⟨h.whole, h.short, h.state, h.bufferLen, h.size, h.held⟩
  by_cases hpos : 0 < counted.bufferLen
  · rw [if_pos hpos]
    obtain ⟨blocks', rest', hfill, hbytes, hdone, hlen⟩ := fill_spec hcounted input
    simp only
    rcases hdone with rfl | hnil
    · obtain ⟨blocks'', rest'', hdrain, hbytes', hlen'⟩ := drain_spec hfill (counted.fill input).2
      refine ⟨blocks'', rest'', hdrain, ?_, by rw [hlen', hlen]⟩
      rw [hbytes', ← hbytes, append_nil]
    · rw [hnil, drain_nil]
      refine ⟨blocks', rest', hfill, ?_, by rw [hlen]⟩
      rw [← hbytes, hnil, append_nil]
  · rw [if_neg hpos]
    have hnil : rest = [] := by
      have := hcounted.bufferLen
      exact length_eq_zero_iff.1 (by omega)
    subst hnil
    obtain ⟨blocks', rest', hdrain, hbytes, hlen⟩ := drain_spec hcounted input
    exact ⟨blocks', rest', hdrain, by rw [hbytes, append_nil], hlen⟩

/-- What has been consumed after any number of updates. -/
theorem updates_spec (pieces : List (List UInt8)) :
    ∃ blocks rest, Holds (pieces.foldl update new) blocks rest ∧ blocks ++ rest = pieces.flatten ∧
      (pieces.foldl update new).bitLen = 8 * pieces.flatten.length % 2 ^ 64 := by
  induction pieces using List.reverseRecOn with
  | nil => exact ⟨[], [], holds_new, rfl, rfl⟩
  | append_singleton pieces input ih =>
    obtain ⟨blocks, rest, hholds, hbytes, hlen⟩ := ih
    obtain ⟨blocks', rest', hholds', hbytes', hlen'⟩ := update_spec hholds input
    rw [foldl_append, foldl_cons, foldl_nil]
    refine ⟨blocks', rest', hholds', ?_, ?_⟩
    · rw [hbytes', hbytes]
      simp
    · simp only [flatten_append, flatten_singleton, length_append]
      omega

/-- The first bytes of a buffer and what is written behind them. -/
theorem splice_keeps {start : ℕ} (tail : List UInt8)
    (hsize : bytes.length = 64) (hkept : bytes.take start = block)
    (hle : start + tail.length ≤ 64) :
    (splice bytes start tail).length = 64 ∧
      (splice bytes start tail).take (start + tail.length) = block ++ tail := by
  refine ⟨by rw [splice_length (by omega), hsize], ?_⟩
  rw [take_splice (by omega), hkept]

/-- The last block: the length behind the zeros. -/
theorem lastBlock_eq (hsize : bytes.length = 64)
    (hkept : bytes.take n = block) (hle : n ≤ 56) (bitLen : ℕ) :
    splice (splice bytes n (List.replicate (56 - n) 0)) 56 (toBe 8 bitLen) =
      block ++ List.replicate (56 - n) 0 ++ toBe 8 bitLen := by
  obtain ⟨hsize₁, hzeros⟩ := splice_keeps (List.replicate (56 - n) 0) hsize hkept
    (by rw [length_replicate]; omega)
  have hn : n + (List.replicate (56 - n) (0 : UInt8)).length = 56 := by
    rw [length_replicate]
    omega
  rw [hn] at hzeros
  obtain ⟨hsize₂, hall⟩ := splice_keeps (toBe 8 bitLen) hsize₁ hzeros (by rw [length_toBe])
  rwa [length_toBe, take_of_length_le (by omega)] at hall

/-- The digest of a state. -/
def out (state : HashState) : List UInt8 := state.toList.flatMap fun value => toBe 4 value.toNat

section

variable {hasher : Sha256} {blocks rest : List UInt8}

theorem finish_short (h : Holds hasher blocks rest) (hshort : rest.length ≤ 55) :
    hasher.finish = out (compress hasher.state
      (rest ++ [0x80] ++ List.replicate (56 - (rest.length + 1)) 0 ++ toBe 8 hasher.bitLen)) := by
  obtain ⟨hsize, hmark⟩ := splice_keeps [0x80] h.size h.held (by simp; omega)
  have hlast := lastBlock_eq hsize hmark (by simp; omega) hasher.bitLen
  rw [finish, h.bufferLen, if_neg (by omega)]
  rw [length_singleton] at hlast
  simp only [hlast]
  rfl

theorem finish_long (h : Holds hasher blocks rest) (hlong : 56 ≤ rest.length) :
    hasher.finish = out (compress (compress hasher.state
      (rest ++ [0x80] ++ List.replicate (64 - (rest.length + 1)) 0))
      (List.replicate 56 0 ++ toBe 8 hasher.bitLen)) := by
  have hshort := h.short
  obtain ⟨hsize, hmark⟩ := splice_keeps [0x80] h.size h.held (by simp; omega)
  rw [length_singleton] at hmark
  obtain ⟨hsize', hfull⟩ := splice_keeps (List.replicate (64 - (rest.length + 1)) 0) hsize hmark
    (by simp; omega)
  rw [take_of_length_le (by rw [hsize', length_replicate]; omega)] at hfull
  have hlast := lastBlock_eq hsize' take_zero (by norm_num) hasher.bitLen
  rw [finish, h.bufferLen, if_pos (by omega)]
  simp only [hlast, nil_append]
  rw [hfull]
  rfl

/-- The block or the two blocks that `finish` compresses are the rest with its padding. -/
theorem finish_eq (h : Holds hasher blocks rest)
    (hlen : hasher.bitLen = 8 * (blocks ++ rest).length) :
    hasher.finish =
      out (chain (blocks ++ rest ++ Sys.Sha256.padding (blocks ++ rest).length)) := by
  have hwhole := h.whole
  have hshort := h.short
  have hmod : (blocks ++ rest).length % 64 = rest.length := by
    rw [length_append]
    omega
  rw [Sys.Sha256.padding, hmod]
  rcases Nat.lt_or_ge rest.length 56 with hr | hr
  · rw [finish_short h (by omega), h.state, ← chain_block hwhole (by simp; omega), hlen,
      show (119 - rest.length) % 64 = 56 - (rest.length + 1) by omega]
    simp only [append_assoc, cons_append, nil_append]
  · rw [finish_long h hr, h.state, ← chain_block hwhole (by simp; omega),
      ← chain_block (by simp; omega) (by simp), hlen,
      show (119 - rest.length) % 64 = 64 - (rest.length + 1) + 56 by omega, replicate_add]
    simp only [append_assoc, cons_append, nil_append]

end

theorem bitsOf_out (state : HashState) :
    bitsOf (out state) = state.toList.flatMap fun word => toBits 32 word.toNat := by
  rw [out, bitsOf, flatMap_assoc]
  exact congrArg (state.toList.flatMap ·) (funext fun word => bitsOf_toBe 4 word.toNat)

theorem chain_eq (bytes : List UInt8) : chain bytes =
    (chunksExact 512 (bitsOf bytes)).foldl
      (fun state block => Sys.Sha256.compress state (Sys.Sha256.parse block))
      Sys.Sha256.initial := by
  rw [show 512 = 8 * 64 by norm_num, chunksExact_bitsOf, foldl_map, initial_eq]
  exact foldl_ext _ _ _ fun state block hblock =>
    compress_eq (length_of_mem_chunksExact hblock) state

/-- However the message is cut into pieces, the digest is the standard's. -/
theorem finish_updates {pieces : List (List UInt8)} (hlen : pieces.flatten.length < 2 ^ 61) :
    bitsOf (pieces.foldl update new).finish = Sys.Sha256.digest (bitsOf pieces.flatten) := by
  obtain ⟨blocks, rest, hholds, hbytes, hbits⟩ := updates_spec pieces
  rw [← hbytes] at hbits hlen ⊢
  rw [Nat.mod_eq_of_lt (by omega)] at hbits
  rw [finish_eq hholds hbits, bitsOf_out, Sys.Sha256.digest, Sys.Sha256.hash,
    Sys.Sha256.pad_bitsOf, chain_eq]

end AegisHV.Integrity.Sha256
