import TuduOS.Lib.Mealy
import TuduOS.Lib.Ring

/-!
# The ring buffer of the drivers (`ringbuffer.c`)

* The pool is the memory behind `buffer_ptr`, a byte at every index.
* An index has 15 bits, a mirror one bit; `rt_size_t` has 32 bits and `rt_uint16_t` 16.
* A caller's memory is a byte at every index too. `rt_ringbuffer_get` answers with that memory
  after the call.

`fifoStep` is the queue that the buffer implements.
-/

namespace Tudu.RingBuffer

structure RtRingbuffer where
  buffer : Nat → UInt8
  readMirror : Bool
  readIndex : Nat
  writeMirror : Bool
  writeIndex : Nat
  bufferSize : Nat

inductive RingbufferState where
  | empty | full | halffull
  deriving DecidableEq

/-- `rt_uint16_t read_index : 15` -/
def index15 (n : Nat) : Nat := n % 32768

def memcpy (dst : Nat → UInt8) (d : Nat) (src : Nat → UInt8) (a n : Nat) : Nat → UInt8 := fun x =>
  if d ≤ x ∧ x < d + n then src (a + (x - d)) else dst x

namespace RtRingbuffer

def status (rb : RtRingbuffer) : RingbufferState :=
  if rb.readIndex = rb.writeIndex then
    if rb.readMirror = rb.writeMirror then .empty else .full
  else .halffull

def dataLen (rb : RtRingbuffer) : Nat :=
  match rb.status with
  | .empty => 0
  | .full => rb.bufferSize
  | .halffull =>
    if rb.writeIndex > rb.readIndex then rb.writeIndex - rb.readIndex
    else rb.bufferSize - (rb.readIndex - rb.writeIndex)

/-- `rt_ringbuffer_space_len`, in 32 bits -/
def spaceLen (rb : RtRingbuffer) : Nat :=
  (4294967296 + rb.bufferSize - rb.dataLen) % 4294967296

/-- `size`: an `rt_int16_t` above 0 -/
def init (pool : Nat → UInt8) (size : Nat) : RtRingbuffer where
  buffer := pool
  readMirror := false
  readIndex := 0
  writeMirror := false
  writeIndex := 0
  bufferSize := size / 4 * 4

def put (rb : RtRingbuffer) (ptr : Nat → UInt8) (length : UInt16) : RtRingbuffer × Nat :=
  let size := rb.spaceLen % 65536
  if size = 0 then (rb, 0)
  else
    let length := if size < length.toNat then size else length.toNat
    let rest := rb.bufferSize - rb.writeIndex
    if rest > length then
      ({ rb with
        buffer := memcpy rb.buffer rb.writeIndex ptr 0 length
        writeIndex := index15 (rb.writeIndex + length) }, length)
    else
      ({ rb with
        buffer := memcpy (memcpy rb.buffer rb.writeIndex ptr 0 rest) 0 ptr rest (length - rest)
        writeMirror := !rb.writeMirror
        writeIndex := index15 (length - rest) }, length)

/-- The buffer, the returned length, and the memory at `ptr`. -/
def get (rb : RtRingbuffer) (ptr : Nat → UInt8) (length : UInt16) :
    RtRingbuffer × Nat × (Nat → UInt8) :=
  let size := rb.dataLen
  if size = 0 then (rb, 0, ptr)
  else
    let length := if size < length.toNat then size else length.toNat
    let rest := rb.bufferSize - rb.readIndex
    if rest > length then
      ({ rb with readIndex := index15 (rb.readIndex + length) }, length,
        memcpy ptr 0 rb.buffer rb.readIndex length)
    else
      ({ rb with
        readMirror := !rb.readMirror
        readIndex := index15 (length - rest) }, length,
        memcpy (memcpy ptr 0 rb.buffer rb.readIndex rest) rest rb.buffer 0 (length - rest))

def putchar (rb : RtRingbuffer) (ch : UInt8) : RtRingbuffer × Nat :=
  if rb.spaceLen = 0 then (rb, 0)
  else
    let rb := { rb with buffer := Function.update rb.buffer rb.writeIndex ch }
    if rb.writeIndex = rb.bufferSize - 1 then
      ({ rb with writeMirror := !rb.writeMirror, writeIndex := 0 }, 1)
    else ({ rb with writeIndex := index15 (rb.writeIndex + 1) }, 1)

/-- The buffer, the returned length, and `*ch`. -/
def getchar (rb : RtRingbuffer) (ch : UInt8) : RtRingbuffer × Nat × UInt8 :=
  if rb.dataLen = 0 then (rb, 0, ch)
  else
    let ch := rb.buffer rb.readIndex
    if rb.readIndex = rb.bufferSize - 1 then
      ({ rb with readMirror := !rb.readMirror, readIndex := 0 }, 1, ch)
    else ({ rb with readIndex := index15 (rb.readIndex + 1) }, 1, ch)

end RtRingbuffer

open RtRingbuffer

/-- A call, with the memory of the caller that it reads or writes. -/
inductive Act where
  | put (ptr : Nat → UInt8) (length : UInt16)
  | get (ptr : Nat → UInt8) (length : UInt16)
  | putchar (ch : UInt8)
  | getchar (ch : UInt8)

/-- The returned number, and the memory of the caller if the call writes there. -/
inductive Out where
  | put (n : Nat)
  | get (n : Nat) (ptr : Nat → UInt8)
  | getchar (n : Nat) (ch : UInt8)

def step (rb : RtRingbuffer) : Act → RtRingbuffer × Out
  | .put ptr length =>
    let r := rb.put ptr length
    (r.1, .put r.2)
  | .get ptr length =>
    let r := rb.get ptr length
    (r.1, .get r.2.1 r.2.2)
  | .putchar ch =>
    let r := rb.putchar ch
    (r.1, .put r.2)
  | .getchar ch =>
    let r := rb.getchar ch
    (r.1, .getchar r.2.1 r.2.2)

/-- A queue of at most `capacity` bytes. -/
def fifoStep (capacity : Nat) (q : List UInt8) : Act → List UInt8 × Out
  | .put ptr length =>
    let n := min length.toNat (capacity - q.length)
    (q ++ (List.range n).map ptr, .put n)
  | .get ptr length =>
    let n := min length.toNat q.length
    (q.drop n, .get n fun i => if i < n then q.getD i 0 else ptr i)
  | .putchar ch => if q.length < capacity then (q ++ [ch], .put 1) else (q, .put 0)
  | .getchar ch => (q.tail, .getchar (min 1 q.length) (q.headD ch))

/-! ## Positions -/

variable {rb : RtRingbuffer} {entry n j x : Nat} {ptr : Nat → UInt8} {length : UInt16} {ch : UInt8}

/-- With equal mirrors the writer is `entry` cells ahead of the reader, else it is behind it, once
around. -/
structure Wf (rb : RtRingbuffer) (entry : Nat) : Prop where
  size : rb.bufferSize < 32768
  read : rb.readIndex < rb.bufferSize
  write : rb.writeIndex < rb.bufferSize
  pos : (rb.readMirror = rb.writeMirror ∧ rb.writeIndex = rb.readIndex + entry) ∨
    (rb.readMirror ≠ rb.writeMirror ∧ rb.writeIndex + rb.bufferSize = rb.readIndex + entry ∧
      rb.writeIndex ≤ rb.readIndex)

theorem index15_of_lt (h : n < 32768) : index15 n = n := Nat.mod_eq_of_lt h

namespace Wf

theorem entry_le (h : Wf rb entry) : entry ≤ rb.bufferSize := by
  have hw := h.write
  rcases h.pos with ⟨-, hp⟩ | ⟨-, hp, hle⟩ <;> omega

theorem dataLen (h : Wf rb entry) : rb.dataLen = entry := by
  have hr := h.read
  have hw := h.write
  unfold RtRingbuffer.dataLen status
  rcases h.pos with ⟨hm, hp⟩ | ⟨hm, hp, hle⟩
  · by_cases he : rb.readIndex = rb.writeIndex
    · simp only [he, hm, if_true]
      omega
    · simp only [he, if_false]
      rw [if_pos (by omega)]
      omega
  · by_cases he : rb.readIndex = rb.writeIndex
    · simp only [he, hm, if_true, if_false]
      omega
    · simp only [he, if_false]
      rw [if_neg (by omega)]
      omega

theorem spaceLen (h : Wf rb entry) : rb.spaceLen = rb.bufferSize - entry := by
  have hs := h.size
  have he := h.entry_le
  unfold RtRingbuffer.spaceLen
  rw [h.dataLen]
  omega

/-- The cell `j` behind the last byte. -/
theorem cell (h : Wf rb entry) (hj : j < rb.bufferSize) :
    (rb.readIndex + entry + j) % rb.bufferSize =
      if rb.writeIndex + j < rb.bufferSize then rb.writeIndex + j
      else rb.writeIndex + j - rb.bufferSize := by
  have hw := h.write
  rcases h.pos with ⟨-, hp⟩ | ⟨-, hp, -⟩
  · rw [← hp]
    exact Ring.mod_wrap (by omega)
  · rw [← hp, Nat.add_right_comm, Nat.add_mod_right]
    exact Ring.mod_wrap (by omega)

/-- The writer moves on by `n` cells. -/
theorem push (h : Wf rb entry) (hn : entry + n ≤ rb.bufferSize) {buffer : Nat → UInt8} :
    Wf (if rb.writeIndex + n < rb.bufferSize then
        { rb with buffer := buffer, writeIndex := rb.writeIndex + n }
      else { rb with
        buffer := buffer
        writeMirror := !rb.writeMirror
        writeIndex := rb.writeIndex + n - rb.bufferSize }) (entry + n) := by
  have hr := h.read
  have hw := h.write
  have hpos := h.pos
  split
  · next hlt =>
    refine ⟨h.size, hr, hlt, ?_⟩
    simp only
    rcases hpos with ⟨hm, hp⟩ | ⟨hm, hp, hle⟩
    · exact .inl ⟨hm, by omega⟩
    · exact .inr ⟨hm, by omega, by omega⟩
  · next hge =>
    refine ⟨h.size, hr, by simp only; omega, ?_⟩
    simp only
    rcases hpos with ⟨hm, hp⟩ | ⟨hm, hp, hle⟩
    · exact .inr ⟨by simp [hm], by omega, by omega⟩
    · exact .inl ⟨by revert hm; cases rb.readMirror <;> cases rb.writeMirror <;> decide, by omega⟩

/-- The reader moves on by `n` cells. -/
theorem pop (h : Wf rb entry) (hn : n ≤ entry) :
    Wf (if rb.readIndex + n < rb.bufferSize then { rb with readIndex := rb.readIndex + n }
      else { rb with
        readMirror := !rb.readMirror
        readIndex := rb.readIndex + n - rb.bufferSize }) (entry - n) := by
  have hr := h.read
  have hw := h.write
  have he := h.entry_le
  have hpos := h.pos
  split
  · next hlt =>
    refine ⟨h.size, hlt, hw, ?_⟩
    simp only
    rcases hpos with ⟨hm, hp⟩ | ⟨hm, hp, hle⟩
    · exact .inl ⟨hm, by omega⟩
    · exact .inr ⟨hm, by omega, by omega⟩
  · next hge =>
    refine ⟨h.size, by simp only; omega, hw, ?_⟩
    simp only
    rcases hpos with ⟨hm, hp⟩ | ⟨hm, hp, hle⟩
    · omega
    · exact .inl ⟨by revert hm; cases rb.readMirror <;> cases rb.writeMirror <;> decide, by omega⟩

end Wf

/-! ## The queue -/

/-- The buffer holds the bytes `q`. -/
structure Holds (rb : RtRingbuffer) (q : List UInt8) : Prop where
  wf : Wf rb q.length
  contents : Ring.contents rb.buffer rb.bufferSize rb.readIndex q.length = q

theorem memcpy_of_lt {dst src : Nat → UInt8} {d a : Nat} (h1 : d ≤ x) (h2 : x < d + n) :
    memcpy dst d src a n x = src (a + (x - d)) := if_pos ⟨h1, h2⟩

theorem memcpy_of_not {dst src : Nat → UInt8} {d a : Nat} (h : ¬ (d ≤ x ∧ x < d + n)) :
    memcpy dst d src a n x = dst x := if_neg h

namespace Holds

variable {q : List UInt8}

/-- New bytes in the cells behind the last one. -/
theorem push (h : Holds rb q) (hn : q.length + n ≤ rb.bufferSize) (buffer : Nat → UInt8)
    (f : Nat → UInt8) (hnew : ∀ j, j < n →
      buffer (if rb.writeIndex + j < rb.bufferSize then rb.writeIndex + j
        else rb.writeIndex + j - rb.bufferSize) = f j)
    (hold : ∀ x, (∀ j, j < n → x ≠ if rb.writeIndex + j < rb.bufferSize then rb.writeIndex + j
        else rb.writeIndex + j - rb.bufferSize) → buffer x = rb.buffer x) :
    Holds (if rb.writeIndex + n < rb.bufferSize then
        { rb with buffer := buffer, writeIndex := rb.writeIndex + n }
      else { rb with
        buffer := buffer
        writeMirror := !rb.writeMirror
        writeIndex := rb.writeIndex + n - rb.bufferSize }) (q ++ (List.range n).map f) := by
  have hlen : (q ++ (List.range n).map f).length = q.length + n := by simp
  have hcell : ∀ j, j < n → (rb.readIndex + q.length + j) % rb.bufferSize =
      if rb.writeIndex + j < rb.bufferSize then rb.writeIndex + j
      else rb.writeIndex + j - rb.bufferSize := fun j hj => h.wf.cell (by omega)
  have hc : Ring.contents buffer rb.bufferSize rb.readIndex (q.length + n) =
      q ++ (List.range n).map f := by
    have hnew' : ∀ j, j < n →
        buffer ((rb.readIndex + q.length + j) % rb.bufferSize) = f j := by
      intro j hj
      rw [hcell j hj]
      exact hnew j hj
    have hold' : ∀ x, (∀ j, j < n → x ≠ (rb.readIndex + q.length + j) % rb.bufferSize) →
        buffer x = rb.buffer x := by
      intro x hx
      apply hold
      intro j hj
      rw [← hcell j hj]
      exact hx j hj
    rw [Ring.contents_pushAll hn hnew' hold', h.contents]
  refine ⟨by rw [hlen]; exact h.wf.push hn, ?_⟩
  rw [hlen]
  split
  · exact hc
  · exact hc

/-- The first bytes are taken. -/
theorem pop (h : Holds rb q) (hn : n ≤ q.length) :
    Holds (if rb.readIndex + n < rb.bufferSize then { rb with readIndex := rb.readIndex + n }
      else { rb with
        readMirror := !rb.readMirror
        readIndex := rb.readIndex + n - rb.bufferSize }) (q.drop n) := by
  have hr := h.wf.read
  have he := h.wf.entry_le
  have hc : Ring.contents rb.buffer rb.bufferSize ((rb.readIndex + n) % rb.bufferSize)
      (q.length - n) = q.drop n := by
    rw [← Ring.drop_contents hn, h.contents]
  rw [Ring.mod_wrap (by omega)] at hc
  refine ⟨by rw [List.length_drop]; exact h.wf.pop hn, ?_⟩
  rw [List.length_drop]
  split
  · next hlt =>
    rw [if_pos hlt] at hc
    exact hc
  · next hge =>
    rw [if_neg hge] at hc
    exact hc

/-- The byte `j` of the queue. -/
theorem byte (h : Holds rb q) (hj : j < q.length) : q.getD j 0 =
    rb.buffer (if rb.readIndex + j < rb.bufferSize then rb.readIndex + j
      else rb.readIndex + j - rb.bufferSize) := by
  have hr := h.wf.read
  have he := h.wf.entry_le
  have hc : (Ring.contents rb.buffer rb.bufferSize rb.readIndex q.length).getD j 0 =
      rb.buffer ((rb.readIndex + j) % rb.bufferSize) := Ring.getD_contents 0 hj
  rw [h.contents] at hc
  rw [hc, Ring.mod_wrap (by omega)]

/-- The bytes `f` are copied behind the last one, and around the end of the buffer. -/
theorem write (h : Holds rb q) (hn : q.length + n ≤ rb.bufferSize) (f : Nat → UInt8) :
    Holds (if rb.bufferSize - rb.writeIndex > n then
        { rb with
          buffer := memcpy rb.buffer rb.writeIndex f 0 n
          writeIndex := index15 (rb.writeIndex + n) }
      else { rb with
        buffer := memcpy (memcpy rb.buffer rb.writeIndex f 0 (rb.bufferSize - rb.writeIndex)) 0 f
          (rb.bufferSize - rb.writeIndex) (n - (rb.bufferSize - rb.writeIndex))
        writeMirror := !rb.writeMirror
        writeIndex := index15 (n - (rb.bufferSize - rb.writeIndex)) })
      (q ++ (List.range n).map f) := by
  have hs := h.wf.size
  have hw := h.wf.write
  by_cases hrest : rb.bufferSize - rb.writeIndex > n
  · rw [if_pos hrest]
    have hp := h.push hn (memcpy rb.buffer rb.writeIndex f 0 n) f
      (fun j hj => by
        rw [if_pos (by omega), memcpy_of_lt (by omega) (by omega)]
        congr 1
        omega)
      (fun x hx => memcpy_of_not fun hm => by
        have := hx (x - rb.writeIndex) (by omega)
        rw [if_pos (by omega)] at this
        omega)
    rw [if_pos (by omega)] at hp
    rw [index15_of_lt (by omega)]
    exact hp
  · rw [if_neg hrest]
    have hp := h.push hn (memcpy (memcpy rb.buffer rb.writeIndex f 0
        (rb.bufferSize - rb.writeIndex)) 0 f (rb.bufferSize - rb.writeIndex)
        (n - (rb.bufferSize - rb.writeIndex))) f
      (fun j hj => by
        by_cases hj' : rb.writeIndex + j < rb.bufferSize
        · rw [if_pos hj', memcpy_of_not (by omega), memcpy_of_lt (by omega) (by omega)]
          congr 1
          omega
        · rw [if_neg hj', memcpy_of_lt (by omega) (by omega)]
          congr 1
          omega)
      (fun x hx => by
        rw [memcpy_of_not, memcpy_of_not]
        · intro hm
          have := hx (x - rb.writeIndex) (by omega)
          rw [if_pos (by omega)] at this
          omega
        · intro hm
          have := hx (x + rb.bufferSize - rb.writeIndex) (by omega)
          rw [if_neg (by omega)] at this
          omega)
    rw [if_neg (by omega)] at hp
    rw [index15_of_lt (by omega)]
    have hi : n - (rb.bufferSize - rb.writeIndex) = rb.writeIndex + n - rb.bufferSize := by omega
    rw [hi] at hp ⊢
    exact hp

theorem put (h : Holds rb q) (ptr : Nat → UInt8) (length : UInt16) :
    Holds (rb.put ptr length).1
      (q ++ (List.range (min length.toNat (rb.bufferSize - q.length))).map ptr) ∧
    (rb.put ptr length).1.bufferSize = rb.bufferSize ∧
    (rb.put ptr length).2 = min length.toNat (rb.bufferSize - q.length) := by
  have hs := h.wf.size
  have he := h.wf.entry_le
  have hsp := h.wf.spaceLen
  unfold RtRingbuffer.put
  simp only
  rw [hsp, Nat.mod_eq_of_lt (by omega)]
  by_cases hz : rb.bufferSize - q.length = 0
  · rw [if_pos hz, hz, Nat.min_zero]
    simpa using h
  · rw [if_neg hz]
    have hmin : (if rb.bufferSize - q.length < length.toNat then rb.bufferSize - q.length
        else length.toNat) = min length.toNat (rb.bufferSize - q.length) := by
      split <;> omega
    rw [hmin]
    generalize hn : min length.toNat (rb.bufferSize - q.length) = n
    have hp := h.write (n := n) (by omega) ptr
    by_cases hrest : rb.bufferSize - rb.writeIndex > n
    · rw [if_pos hrest] at hp ⊢
      exact ⟨hp, rfl, rfl⟩
    · rw [if_neg hrest] at hp ⊢
      exact ⟨hp, rfl, rfl⟩

theorem get (h : Holds rb q) (ptr : Nat → UInt8) (length : UInt16) :
    Holds (rb.get ptr length).1 (q.drop (min length.toNat q.length)) ∧
    (rb.get ptr length).1.bufferSize = rb.bufferSize ∧
    (rb.get ptr length).2.1 = min length.toNat q.length ∧
    (rb.get ptr length).2.2 =
      fun i => if i < min length.toNat q.length then q.getD i 0 else ptr i := by
  have hs := h.wf.size
  have hr := h.wf.read
  have he := h.wf.entry_le
  unfold RtRingbuffer.get
  simp only
  rw [h.wf.dataLen]
  by_cases hz : q.length = 0
  · rw [if_pos hz, hz, Nat.min_zero]
    exact ⟨h, rfl, rfl, rfl⟩
  · rw [if_neg hz]
    have hmin : (if q.length < length.toNat then q.length else length.toNat) =
        min length.toNat q.length := by
      split <;> omega
    rw [hmin]
    generalize hn : min length.toNat q.length = n
    have hp := h.pop (n := n) (by omega)
    by_cases hrest : rb.bufferSize - rb.readIndex > n
    · rw [if_pos hrest, index15_of_lt (by omega)]
      rw [if_pos (by omega)] at hp
      refine ⟨hp, rfl, rfl, ?_⟩
      apply funext
      intro i
      show memcpy ptr 0 rb.buffer rb.readIndex n i = _
      by_cases hi : i < n
      · rw [if_pos hi, memcpy_of_lt (by omega) (by omega), h.byte (by omega), if_pos (by omega)]
        rfl
      · rw [if_neg hi, memcpy_of_not (by omega)]
    · rw [if_neg hrest, index15_of_lt (by omega)]
      rw [if_neg (by omega)] at hp
      have hi : n - (rb.bufferSize - rb.readIndex) = rb.readIndex + n - rb.bufferSize := by omega
      rw [hi]
      refine ⟨hp, rfl, rfl, ?_⟩
      apply funext
      intro i
      show memcpy (memcpy ptr 0 rb.buffer rb.readIndex (rb.bufferSize - rb.readIndex))
        (rb.bufferSize - rb.readIndex) rb.buffer 0 (rb.readIndex + n - rb.bufferSize) i = _
      by_cases hi : i < n
      · rw [if_pos hi, h.byte (by omega)]
        by_cases hi' : rb.readIndex + i < rb.bufferSize
        · rw [if_pos hi', memcpy_of_not (by omega), memcpy_of_lt (by omega) (by omega)]
          rfl
        · rw [if_neg hi', memcpy_of_lt (by omega) (by omega)]
          congr 1
          omega
      · rw [if_neg hi, memcpy_of_not (by omega), memcpy_of_not (by omega)]

/-- One byte behind the last one. -/
theorem pushChar (h : Holds rb q) (hlt : q.length < rb.bufferSize) (ch : UInt8) :
    Holds (if rb.writeIndex = rb.bufferSize - 1 then
        { rb with
          buffer := Function.update rb.buffer rb.writeIndex ch
          writeMirror := !rb.writeMirror
          writeIndex := 0 }
      else { rb with
        buffer := Function.update rb.buffer rb.writeIndex ch
        writeIndex := index15 (rb.writeIndex + 1) }) (q ++ [ch]) := by
  have hs := h.wf.size
  have hw := h.wf.write
  have hp := h.push (n := 1) hlt (Function.update rb.buffer rb.writeIndex ch)
    (fun _ => ch)
    (fun j hj => by
      rw [if_pos (by omega), Nat.lt_one_iff.mp hj, Nat.add_zero, Function.update_self])
    (fun x hx => Function.update_of_ne (by
      have := hx 0 Nat.one_pos
      rw [if_pos (by omega)] at this
      exact this) _ _)
  by_cases hlast : rb.writeIndex = rb.bufferSize - 1
  · rw [if_neg (by omega)] at hp
    have hi : rb.writeIndex + 1 - rb.bufferSize = 0 := by omega
    rw [hi] at hp
    rw [if_pos hlast]
    exact hp
  · rw [if_pos (by omega)] at hp
    rw [if_neg hlast, index15_of_lt (by omega)]
    exact hp

theorem putchar (h : Holds rb q) (ch : UInt8) :
    (q.length < rb.bufferSize → Holds (rb.putchar ch).1 (q ++ [ch]) ∧ (rb.putchar ch).2 = 1) ∧
    (¬ q.length < rb.bufferSize → (rb.putchar ch).1 = rb ∧ (rb.putchar ch).2 = 0) ∧
    (rb.putchar ch).1.bufferSize = rb.bufferSize := by
  have hsp := h.wf.spaceLen
  unfold RtRingbuffer.putchar
  rw [hsp]
  by_cases hz : rb.bufferSize - q.length = 0
  · rw [if_pos hz]
    exact ⟨fun hlt => by omega, fun _ => ⟨rfl, rfl⟩, rfl⟩
  · rw [if_neg hz]
    have hp := h.pushChar (by omega) ch
    by_cases hlast : rb.writeIndex = rb.bufferSize - 1
    · simp only [if_pos hlast] at hp ⊢
      exact ⟨fun _ => ⟨hp, trivial⟩, fun hn => by omega, trivial⟩
    · simp only [if_neg hlast] at hp ⊢
      exact ⟨fun _ => ⟨hp, trivial⟩, fun hn => by omega, trivial⟩

theorem getchar (h : Holds rb q) (ch : UInt8) : Holds (rb.getchar ch).1 q.tail ∧
    (rb.getchar ch).1.bufferSize = rb.bufferSize ∧
    (rb.getchar ch).2.1 = min 1 q.length ∧ (rb.getchar ch).2.2 = q.headD ch := by
  have hs := h.wf.size
  have hr := h.wf.read
  have he := h.wf.entry_le
  unfold RtRingbuffer.getchar
  rw [h.wf.dataLen]
  cases q with
  | nil => exact ⟨h, rfl, rfl, rfl⟩
  | cons x q =>
    rw [if_neg (by simp)]
    have hb := h.byte (j := 0) (by simp)
    have hp := h.pop (n := 1) (by simp)
    have hmin : 1 = min 1 (x :: q).length := by
      rw [List.length_cons]
      omega
    rw [if_pos (by omega)] at hb
    have hch : rb.buffer rb.readIndex = x := hb.symm
    by_cases hlast : rb.readIndex = rb.bufferSize - 1
    · rw [if_neg (by omega)] at hp
      simp only [if_pos hlast]
      have hi : rb.readIndex + 1 - rb.bufferSize = 0 := by omega
      rw [hi] at hp
      exact ⟨hp, trivial, hmin, hch⟩
    · rw [if_pos (by omega)] at hp
      simp only [if_neg hlast]
      rw [index15_of_lt (by omega)]
      exact ⟨hp, trivial, hmin, hch⟩

end Holds

/-! ## Runs -/

theorem holds_init (pool : Nat → UInt8) {size : Nat} (h1 : 4 ≤ size) (h2 : size ≤ 32767) :
    Holds (RtRingbuffer.init pool size) [] := by
  refine ⟨⟨?_, ?_, ?_, .inl ⟨rfl, rfl⟩⟩, rfl⟩
  · show size / 4 * 4 < 32768
    omega
  · show 0 < size / 4 * 4
    omega
  · show 0 < size / 4 * 4
    omega

theorem step_put {rb : RtRingbuffer} {ptr : Nat → UInt8} {length : UInt16} :
    step rb (.put ptr length) = ((rb.put ptr length).1, .put (rb.put ptr length).2) := rfl

theorem step_putchar {rb : RtRingbuffer} {ch : UInt8} :
    step rb (.putchar ch) = ((rb.putchar ch).1, .put (rb.putchar ch).2) := rfl

/-- One call does to the buffer what it does to the queue. -/
theorem step_refines {capacity : Nat} {rb : RtRingbuffer} {q : List UInt8} (a : Act)
    (h : Holds rb q ∧ rb.bufferSize = capacity) :
    (Holds (step rb a).1 (fifoStep capacity q a).1 ∧ (step rb a).1.bufferSize = capacity) ∧
      (step rb a).2 = (fifoStep capacity q a).2 := by
  obtain ⟨h, rfl⟩ := h
  cases a with
  | put ptr length =>
    obtain ⟨hh, hs, hr⟩ := h.put ptr length
    simp only [step_put, fifoStep]
    rw [hr]
    exact ⟨⟨hh, hs⟩, rfl⟩
  | get ptr length =>
    obtain ⟨hh, hs, hr, hm⟩ := h.get ptr length
    simp only [step, fifoStep]
    rw [hr, hm]
    exact ⟨⟨hh, hs⟩, rfl⟩
  | putchar ch =>
    obtain ⟨hlt, hge, hs⟩ := h.putchar ch
    simp only [step_putchar, fifoStep]
    by_cases hq : q.length < rb.bufferSize
    · obtain ⟨hh, hr⟩ := hlt hq
      rw [if_pos hq, hr]
      exact ⟨⟨hh, hs⟩, rfl⟩
    · obtain ⟨hh, hr⟩ := hge hq
      rw [if_neg hq, hr, hh]
      exact ⟨⟨h, rfl⟩, rfl⟩
  | getchar ch =>
    obtain ⟨hh, hs, hr, hc⟩ := h.getchar ch
    simp only [step, fifoStep]
    rw [hr, hc]
    exact ⟨⟨hh, hs⟩, rfl⟩

/-- The ring buffer is a queue of `buffer_size` bytes: from `rt_ringbuffer_init` on, every sequence
of calls has the answers of the queue, `rt_ringbuffer_data_len` is the length of the queue, and the
indices stay below `buffer_size`. -/
theorem ringbuffer_fifo (pool : Nat → UInt8) (size : Nat) (h1 : 4 ≤ size) (h2 : size ≤ 32767)
    (as : List Act) :
    let r := Mealy.run step (RtRingbuffer.init pool size) as
    let r' := Mealy.run (fifoStep (size / 4 * 4)) [] as
    r.2 = r'.2 ∧ r.1.dataLen = r'.1.length ∧
      Ring.contents r.1.buffer r.1.bufferSize r.1.readIndex r.1.dataLen = r'.1 ∧
      r.1.bufferSize = size / 4 * 4 ∧ r.1.readIndex < r.1.bufferSize ∧
      r.1.writeIndex < r.1.bufferSize := by
  obtain ⟨⟨h, hs⟩, ho⟩ := Mealy.run_refines
    (R := fun rb q => Holds rb q ∧ rb.bufferSize = size / 4 * 4)
    (fun rb q a h => step_refines a h) ⟨holds_init pool h1 h2, rfl⟩ as
  refine ⟨ho, h.wf.dataLen, ?_, hs, h.wf.read, h.wf.write⟩
  rw [h.wf.dataLen]
  exact h.contents

/-- Around the end of a buffer of four bytes. -/
theorem ringbuffer_fifo_sample :
    let as : List Act := [.put (fun i => UInt8.ofNat (10 + i)) 3, .get (fun _ => 0) 2,
      .put (fun i => UInt8.ofNat (20 + i)) 9, .getchar 0, .putchar 30, .getchar 0]
    let r := Mealy.run step (RtRingbuffer.init (fun _ => 0) 7) as
    let r' := Mealy.run (fifoStep (7 / 4 * 4)) [] as
    r'.1 = [21, 22, 30] ∧ r.2 = r'.2 ∧ r.1.dataLen = r'.1.length ∧
      Ring.contents r.1.buffer r.1.bufferSize r.1.readIndex r.1.dataLen = r'.1 ∧
      r.1.bufferSize = 7 / 4 * 4 ∧ r.1.readIndex < r.1.bufferSize ∧
      r.1.writeIndex < r.1.bufferSize :=
  ⟨by decide, ringbuffer_fifo (fun _ => 0) 7 (by decide) (by decide) _⟩

end Tudu.RingBuffer
