import TuduOS.Kernel.Def
import TuduOS.Lib.Bytes

/-!
# The memory functions (`rt_memset`, `rt_memcpy`, `rt_memmove` of `kservice.c`)

`rt_memset` and `rt_memcpy` go by four words, by one word and by bytes, as long as enough of the block
is left; `rt_memmove` goes by bytes, from the end where the destination lies in the source behind its
beginning. `memory_bytewise`: they are `Bytes.fill` and `Bytes.copy`.

* A `long` has four bytes, the lowest first. `RT_USING_TINY_SIZE` is not defined.
* `int len` of `rt_memcpy` is here a number without sign: it is compared with `sizeof (long)`, and two
  blocks of 2^31 bytes have no room beside each other.
* `whileLen`: a `while` of these functions. Each round takes some of the length.
-/

namespace Tudu

open Bytes (Memory get set fill copy)

/-- `sizeof (long)` -/
def longSize : Nat := 4

/-- The variables of a loop: what is left of the length, and where the next byte goes and comes from. -/
structure Move where
  mem : Memory
  dst : Nat
  src : Nat
  len : Nat

namespace Move

/-- `while (len >= least)`, for at most `n` rounds -/
def whileLen (least : Nat) (round : Move → Move) : Nat → Move → Move
  | 0, v => v
  | n + 1, v => if least ≤ v.len then whileLen least round n (round v) else v

/-- `*aligned_dst++ = *aligned_src++`, or `*dst_ptr++ = *src_ptr++`: the `w` bytes at `src` go to
`dst`. -/
def move (w : Nat) (v : Move) : Move where
  mem := set v.mem v.dst w (get v.mem v.src w)
  dst := v.dst + w
  src := v.src + w
  len := v.len - w

/-- The copies of four words in a row -/
def moveFour (v : Move) : Move := (((v.move longSize).move longSize).move longSize).move longSize

/-- `*aligned_addr++ = buffer`, or `*m++ = (char)d` -/
def put (w buffer : Nat) (v : Move) : Move where
  mem := set v.mem v.dst w buffer
  dst := v.dst + w
  src := v.src
  len := v.len - w

def putFour (buffer : Nat) (v : Move) : Move :=
  (((v.put longSize buffer).put longSize buffer).put longSize buffer).put longSize buffer

/-- `*(--tmp) = *(--s)` -/
def moveBack (v : Move) : Move where
  mem := set v.mem (v.dst - 1) 1 (get v.mem (v.src - 1) 1)
  dst := v.dst - 1
  src := v.src - 1
  len := v.len - 1

end Move

open Move

/-- `UNALIGNED(X)` -/
def unaligned (a : Nat) : Bool := a &&& (longSize - 1) ≠ 0

/-- The word `buffer`, with the byte `d` four times -/
def memsetBuffer (d : Nat) : Nat :=
  let buffer := d <<< 8 ||| d
  buffer ||| buffer <<< 16

def rtMemset (m : Memory) (s : Nat) (c : BitVec 32) (count : Nat) : Memory :=
  let d := (c &&& 0xff#32).toNat
  let buffer := memsetBuffer d
  let v : Move := ⟨m, s, 0, count⟩
  let v := if longSize ≤ count ∧ unaligned s = false then
      whileLen longSize (put longSize buffer) count
        (whileLen (longSize * 4) (putFour buffer) count v)
    else v
  (whileLen 1 (put 1 d) count v).mem

def rtMemcpy (m : Memory) (dst src count : Nat) : Memory :=
  let v : Move := ⟨m, dst, src, count⟩
  let v := if longSize <<< 2 ≤ count ∧ (unaligned src || unaligned dst) = false then
      whileLen longSize (move longSize) count (whileLen (longSize <<< 2) moveFour count v)
    else v
  (whileLen 1 (move 1) count v).mem

def rtMemmove (m : Memory) (dest src n : Nat) : Memory :=
  if src < dest ∧ dest < add32 src n then
    (whileLen 1 moveBack n ⟨m, dest + n, src + n, n⟩).mem
  else (whileLen 1 (move 1) n ⟨m, dest, src, n⟩).mem

/-! ## Loops -/

namespace Move

variable {m : Memory} {d s n k w least : Nat} {v : Move} {round : Move → Move} {I : Move → Prop}

/-- A loop keeps what its rounds keep. -/
theorem whileLen_inv (hround : ∀ v, I v → least ≤ v.len → I (round v)) (k : Nat) (hv : I v) :
    I (whileLen least round k v) := by
  induction k generalizing v with
  | zero => exact hv
  | succ k ih =>
    unfold whileLen
    split
    · next hlen => exact ih (hround v hv hlen)
    · exact hv

/-- A loop whose rounds take from the length ends with too little of it. -/
theorem whileLen_len (hpos : 0 < least) (hround : ∀ v, (round v).len < v.len ∨ v.len < least)
    (hlen : v.len ≤ k) : (whileLen least round k v).len < least := by
  induction k generalizing v with
  | zero =>
    change v.len < least
    omega
  | succ k ih =>
    unfold whileLen
    split
    · next hle =>
      refine ih ?_
      rcases hround v with h | h <;> omega
    · omega

/-! ## From the beginning -/

/-- The first bytes are copied, and `len` is what is left. -/
structure Copied (m : Memory) (d s n : Nat) (v : Move) : Prop where
  count : v.len ≤ n
  dst : v.dst = d + (n - v.len)
  src : v.src = s + (n - v.len)
  mem : v.mem = copy m d s (n - v.len)

/-- What is read has not been written: the blocks are apart, or the source is read in front of the
destination. -/
def Readable (d s n w : Nat) : Prop := ∀ k, k + w ≤ n → s + k + w ≤ d ∨ d + k ≤ s + k

theorem copied_init (m : Memory) (d s n : Nat) : Copied m d s n ⟨m, d, s, n⟩ where
  count := Nat.le_refl n
  dst := by rw [Nat.sub_self, Nat.add_zero]
  src := by rw [Nat.sub_self, Nat.add_zero]
  mem := by
    rw [Nat.sub_self]
    funext x
    exact (if_neg (by omega)).symm

theorem Copied.move (h : Copied m d s n v) (hr : Readable d s n w) (hw : w ≤ v.len) :
    Copied m d s n (v.move w) := by
  have hle := h.count
  have hsub : n - (v.len - w) = n - v.len + w := by omega
  have hread := hr (n - v.len) (by omega)
  refine ⟨Nat.le_trans (Nat.sub_le _ _) h.count, ?_, ?_, ?_⟩
  · change v.dst + w = d + (n - (v.len - w))
    rw [h.dst, hsub, Nat.add_assoc]
  · change v.src + w = s + (n - (v.len - w))
    rw [h.src, hsub, Nat.add_assoc]
  · change set v.mem v.dst w (get v.mem v.src w) = copy m d s (n - (v.len - w))
    rw [hsub, Bytes.set_get, h.mem, h.dst, h.src]
    funext x
    unfold copy
    by_cases hx : d + (n - v.len) ≤ x ∧ x < d + (n - v.len) + w
    · rw [if_pos hx, if_neg (by omega), if_pos (by omega)]
      congr 1
      omega
    · rw [if_neg hx]
      by_cases hx' : d ≤ x ∧ x < d + (n - v.len)
      · rw [if_pos hx', if_pos (by omega)]
      · rw [if_neg hx', if_neg (by omega)]

theorem Copied.moveFour (h : Copied m d s n v) (hr : Readable d s n longSize)
    (hw : longSize * 4 ≤ v.len) : Copied m d s n v.moveFour := by
  have h4 : longSize = 4 := rfl
  have h1 := h.move hr (show longSize ≤ v.len by omega)
  have h2 := h1.move hr (show longSize ≤ v.len - longSize by omega)
  have h3 := h2.move hr (show longSize ≤ v.len - longSize - longSize by omega)
  exact h3.move hr (show longSize ≤ v.len - longSize - longSize - longSize by omega)

theorem Copied.done (h : Copied m d s n v) (hlen : v.len < 1) : v.mem = copy m d s n := by
  have h0 : v.len = 0 := by omega
  have hmem := h.mem
  rwa [h0, Nat.sub_zero] at hmem

/-- The loop by bytes. -/
theorem copied_bytes (h : Copied m d s n v) (hr : Readable d s n 1) :
    (whileLen 1 (move 1) n v).mem = copy m d s n := by
  have hinv : Copied m d s n (whileLen 1 (move 1) n v) :=
    whileLen_inv (fun v hv hlen => hv.move hr hlen) n h
  refine hinv.done (whileLen_len Nat.one_pos (fun v => ?_) h.count)
  change v.len - 1 < v.len ∨ v.len < 1
  omega

/-! ## From the end -/

/-- The last bytes are copied, and `len` is what is left. -/
structure CopiedBack (m : Memory) (d s n : Nat) (v : Move) : Prop where
  count : v.len ≤ n
  dst : v.dst = d + v.len
  src : v.src = s + v.len
  mem : v.mem = copy m (d + v.len) (s + v.len) (n - v.len)

theorem CopiedBack.moveBack (h : CopiedBack m d s n v) (hds : s < d) (hlen : 1 ≤ v.len) :
    CopiedBack m d s n v.moveBack := by
  have hle := h.count
  refine ⟨Nat.le_trans (Nat.sub_le _ _) h.count, ?_, ?_, ?_⟩
  · change v.dst - 1 = d + (v.len - 1)
    rw [h.dst]
    omega
  · change v.src - 1 = s + (v.len - 1)
    rw [h.src]
    omega
  · change set v.mem (v.dst - 1) 1 (get v.mem (v.src - 1) 1) =
      copy m (d + (v.len - 1)) (s + (v.len - 1)) (n - (v.len - 1))
    rw [Bytes.set_get, h.mem, h.dst, h.src]
    funext x
    unfold copy
    by_cases hx : d + v.len - 1 ≤ x ∧ x < d + v.len - 1 + 1
    · rw [if_pos hx, if_neg (by omega), if_pos (by omega)]
      congr 1
      omega
    · rw [if_neg hx]
      by_cases hx' : d + v.len ≤ x ∧ x < d + v.len + (n - v.len)
      · rw [if_pos hx', if_pos (by omega)]
        congr 1
        omega
      · rw [if_neg hx', if_neg (by omega)]

/-! ## Filling -/

/-- The first bytes are filled, and `len` is what is left. -/
structure Filled (m : Memory) (d n : Nat) (c : UInt8) (v : Move) : Prop where
  count : v.len ≤ n
  dst : v.dst = d + (n - v.len)
  mem : v.mem = fill m d (n - v.len) c

theorem filled_init (m : Memory) (d s n : Nat) (c : UInt8) : Filled m d n c ⟨m, d, s, n⟩ where
  count := Nat.le_refl n
  dst := by rw [Nat.sub_self, Nat.add_zero]
  mem := by
    rw [Nat.sub_self]
    funext x
    exact (if_neg (by omega)).symm

/-- A number with the byte `c` in each of its `w` bytes. -/
def Repeats (c : UInt8) (w buffer : Nat) : Prop := ∀ i, i < w → UInt8.ofNat (buffer / 256 ^ i) = c

theorem Filled.put {c : UInt8} {buffer : Nat} (h : Filled m d n c v) (hb : Repeats c w buffer)
    (hw : w ≤ v.len) : Filled m d n c (v.put w buffer) := by
  have hle := h.count
  have hsub : n - (v.len - w) = n - v.len + w := by omega
  refine ⟨Nat.le_trans (Nat.sub_le _ _) h.count, ?_, ?_⟩
  · change v.dst + w = d + (n - (v.len - w))
    rw [h.dst, hsub, Nat.add_assoc]
  · change set v.mem v.dst w buffer = fill m d (n - (v.len - w)) c
    rw [hsub, h.mem, h.dst]
    funext x
    unfold Bytes.set fill
    by_cases hx : d + (n - v.len) ≤ x ∧ x < d + (n - v.len) + w
    · rw [if_pos hx, if_pos (by omega), hb _ (by omega)]
    · rw [if_neg hx]
      by_cases hx' : d ≤ x ∧ x < d + (n - v.len)
      · rw [if_pos hx', if_pos (by omega)]
      · rw [if_neg hx', if_neg (by omega)]

theorem Filled.putFour {c : UInt8} {buffer : Nat} (h : Filled m d n c v)
    (hb : Repeats c longSize buffer) (hw : longSize * 4 ≤ v.len) :
    Filled m d n c (v.putFour buffer) := by
  have h4 : longSize = 4 := rfl
  have h1 := h.put hb (show longSize ≤ v.len by omega)
  have h2 := h1.put hb (show longSize ≤ v.len - longSize by omega)
  have h3 := h2.put hb (show longSize ≤ v.len - longSize - longSize by omega)
  exact h3.put hb (show longSize ≤ v.len - longSize - longSize - longSize by omega)

end Move

/-! ## The functions -/

open Move

variable {m : Memory} {dst src n : Nat}

theorem rtMemcpy_eq (h : dst + n ≤ src ∨ src + n ≤ dst) :
    rtMemcpy m dst src n = copy m dst src n := by
  have hread : ∀ w, Readable dst src n w := fun w k hk => by omega
  have hinit := copied_init m dst src n
  unfold rtMemcpy
  simp only
  split
  · refine copied_bytes ?_ (hread 1)
    refine whileLen_inv (fun v hv hlen => hv.move (hread longSize) hlen) n ?_
    exact whileLen_inv (fun v hv hlen => hv.moveFour (hread longSize) hlen) n hinit
  · exact copied_bytes hinit (hread 1)

theorem rtMemmove_eq (h : src + n < 4294967296) : rtMemmove m dst src n = copy m dst src n := by
  unfold rtMemmove
  rw [add32_of_lt h]
  split
  · next hov =>
    -- the destination begins in the source
    have hinit : CopiedBack m dst src n ⟨m, dst + n, src + n, n⟩ := {
      count := Nat.le_refl n
      dst := rfl
      src := rfl
      mem := by
        change m = copy m (dst + n) (src + n) (n - n)
        rw [Nat.sub_self]
        funext x
        exact (if_neg (by omega)).symm }
    have hinv : CopiedBack m dst src n (whileLen 1 moveBack n ⟨m, dst + n, src + n, n⟩) :=
      whileLen_inv (fun v hv hlen => hv.moveBack hov.1 hlen) n hinit
    have hlen : (whileLen 1 moveBack n ⟨m, dst + n, src + n, n⟩).len < 1 := by
      refine whileLen_len Nat.one_pos (fun v => ?_) (Nat.le_refl n)
      change v.len - 1 < v.len ∨ v.len < 1
      omega
    have h0 : (whileLen 1 moveBack n ⟨m, dst + n, src + n, n⟩).len = 0 := by omega
    have hmem := hinv.mem
    rwa [h0, Nat.add_zero, Nat.add_zero, Nat.sub_zero] at hmem
  · next hov =>
    exact copied_bytes (copied_init m dst src n) fun k hk => by omega

theorem repeats_byte {d : Nat} : Repeats (UInt8.ofNat d) 1 d := by
  intro i hi
  have h0 : i = 0 := by omega
  rw [h0, Nat.pow_zero, Nat.div_one]

theorem memsetBuffer_eq {d : Nat} (h : d < 256) : memsetBuffer d = 16843009 * d := by
  have h1 : d <<< 8 ||| d = 257 * d := by
    rw [← Nat.shiftLeft_add_eq_or_of_lt h, Nat.shiftLeft_eq]
    omega
  have h2 : 257 * d < 2 ^ 16 := by omega
  unfold memsetBuffer
  simp only [h1]
  rw [Nat.or_comm, ← Nat.shiftLeft_add_eq_or_of_lt h2, Nat.shiftLeft_eq]
  omega

theorem repeats_buffer {d : Nat} (h : d < 256) :
    Repeats (UInt8.ofNat d) longSize (memsetBuffer d) := by
  have h4 : longSize = 4 := rfl
  intro i hi
  rw [memsetBuffer_eq h]
  apply UInt8.toNat_inj.mp
  rw [UInt8.toNat_ofNat', UInt8.toNat_ofNat']
  have h1 : 16843009 * d / 256 = 65793 * d := by omega
  have h2 : 16843009 * d / 65536 = 257 * d := by omega
  have h3 : 16843009 * d / 16777216 = d := by omega
  have hi' : i = 0 ∨ i = 1 ∨ i = 2 ∨ i = 3 := by omega
  rcases hi' with rfl | rfl | rfl | rfl
  · simp only [Nat.reducePow]
    omega
  · simp only [Nat.reducePow, h1]
    omega
  · simp only [Nat.reducePow, h2]
    omega
  · simp only [Nat.reducePow, h3]

theorem rtMemset_eq {s : Nat} {c : BitVec 32} :
    rtMemset m s c n = fill m s n (UInt8.ofNat c.toNat) := by
  have hd : (c &&& 0xff#32).toNat = c.toNat % 256 := by
    rw [BitVec.toNat_and]
    exact Nat.and_two_pow_sub_one_eq_mod c.toNat 8
  have hbyte : UInt8.ofNat (c.toNat % 256) = UInt8.ofNat c.toNat := by
    apply UInt8.toNat_inj.mp
    rw [UInt8.toNat_ofNat', UInt8.toNat_ofNat']
    omega
  have hlt : c.toNat % 256 < 256 := Nat.mod_lt _ (by decide)
  have hbytes : ∀ v, Filled m s n (UInt8.ofNat (c.toNat % 256)) v →
      (whileLen 1 (put 1 (c.toNat % 256)) n v).mem = fill m s n (UInt8.ofNat c.toNat) := by
    intro v hv
    have hinv : Filled m s n (UInt8.ofNat (c.toNat % 256)) (whileLen 1 (put 1 (c.toNat % 256)) n v) :=
      whileLen_inv (fun v hv hlen => hv.put repeats_byte hlen) n hv
    have hlen : (whileLen 1 (put 1 (c.toNat % 256)) n v).len < 1 := by
      refine whileLen_len Nat.one_pos (fun v => ?_) hv.count
      change v.len - 1 < v.len ∨ v.len < 1
      omega
    have h0 : (whileLen 1 (put 1 (c.toNat % 256)) n v).len = 0 := by omega
    have hmem := hinv.mem
    rwa [h0, Nat.sub_zero, hbyte] at hmem
  unfold rtMemset
  simp only [hd]
  split
  · apply hbytes
    refine whileLen_inv (fun v hv hlen => hv.put (repeats_buffer hlt) hlen) n ?_
    exact whileLen_inv (fun v hv hlen => hv.putFour (repeats_buffer hlt) hlen) n
      (filled_init m s 0 n _)
  · exact hbytes _ (filled_init m s 0 n _)

/-- **The memory functions byte by byte.** On blocks in the address space, at any alignment:
`rt_memcpy` copies between blocks that are apart, `rt_memmove` between any two, `rt_memset` fills with
the low byte, and no other byte changes. -/
theorem memory_bytewise (m : Memory) :
    (∀ dst src n, dst + n ≤ src ∨ src + n ≤ dst → rtMemcpy m dst src n = copy m dst src n) ∧
    (∀ dst src n, src + n < 4294967296 → rtMemmove m dst src n = copy m dst src n) ∧
    ∀ s c n, rtMemset m s c n = fill m s n (UInt8.ofNat c.toNat) :=
  ⟨fun _ _ _ h => rtMemcpy_eq h, fun _ _ _ h => rtMemmove_eq h, fun _ _ _ => rtMemset_eq⟩

/-- A block of four words, one word and three bytes; and five bytes that overlap. -/
theorem memory_bytewise_block : ∀ m : Memory, rtMemcpy m 100 204 23 = copy m 100 204 23 ∧
    rtMemmove m 102 100 5 = copy m 102 100 5 ∧ rtMemset m 8 0x141 23 = fill m 8 23 0x41 := by
  intro m
  have h := memory_bytewise m
  exact ⟨h.1 100 204 23 (.inl (by decide)), h.2.1 102 100 5 (by decide), h.2.2 8 0x141 23⟩

end Tudu
