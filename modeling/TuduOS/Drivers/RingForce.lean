import Mathlib.Data.List.DropRight
import TuduOS.Drivers.RingBuffer

/-!
# Forced puts into a ring buffer (`ringbuffer.c`)

A forced put discards the oldest bytes for which there is no room: the reader goes to where the
writer has stopped. Its mirror follows the writer's: where the writer has gone around the end and
the reader is still in front of it, the full buffer becomes an empty one (`putForce_newest`).

* `rt_ringbuffer_create` and `rt_ringbuffer_destroy` are left out.
-/

namespace Tudu.RingBuffer

namespace RtRingbuffer

/-- A length above `buffer_size` is cut down, from the front. -/
def putForce (rb : RtRingbuffer) (ptr : Nat → UInt8) (length : UInt16) : RtRingbuffer × Nat :=
  let spaceLength := rb.spaceLen % 65536
  let skip := if length.toNat > rb.bufferSize then length.toNat - rb.bufferSize else 0
  let src := fun i => ptr (skip + i)
  let n := if length.toNat > rb.bufferSize then rb.bufferSize else length.toNat
  let rest := rb.bufferSize - rb.writeIndex
  if rest > n then
    let writeIndex := index15 (rb.writeIndex + n)
    ({ rb with
      buffer := memcpy rb.buffer rb.writeIndex src 0 n
      writeIndex := writeIndex
      readIndex := if n > spaceLength then writeIndex else rb.readIndex }, n)
  else
    let writeIndex := index15 (n - rest)
    ({ rb with
      buffer := memcpy (memcpy rb.buffer rb.writeIndex src 0 rest) 0 src rest (n - rest)
      writeMirror := !rb.writeMirror
      writeIndex := writeIndex
      readMirror := if n > spaceLength then !rb.readMirror else rb.readMirror
      readIndex := if n > spaceLength then writeIndex else rb.readIndex }, n)

def putcharForce (rb : RtRingbuffer) (ch : UInt8) : RtRingbuffer × Nat :=
  let oldState := rb.status
  let rb := { rb with buffer := Function.update rb.buffer rb.writeIndex ch }
  if rb.writeIndex = rb.bufferSize - 1 then
    ({ rb with
      writeMirror := !rb.writeMirror
      writeIndex := 0
      readMirror := if oldState = .full then !rb.readMirror else rb.readMirror
      readIndex := if oldState = .full then 0 else rb.readIndex }, 1)
  else
    let writeIndex := index15 (rb.writeIndex + 1)
    ({ rb with
      writeIndex := writeIndex
      readIndex := if oldState = .full then writeIndex else rb.readIndex }, 1)

def reset (rb : RtRingbuffer) : RtRingbuffer :=
  { rb with readMirror := false, readIndex := 0, writeMirror := false, writeIndex := 0 }

/-- The bytes in the buffer, the oldest first. -/
def contents (rb : RtRingbuffer) : List UInt8 :=
  Ring.contents rb.buffer rb.bufferSize rb.readIndex rb.dataLen

end RtRingbuffer

open RtRingbuffer

/-- All calls. -/
inductive ForceAct where
  | call (a : Act)
  | putForce (ptr : Nat → UInt8) (length : UInt16)
  | putcharForce (ch : UInt8)
  | reset

def forceStep (rb : RtRingbuffer) : ForceAct → RtRingbuffer
  | .call a => (step rb a).1
  | .putForce ptr length => (rb.putForce ptr length).1
  | .putcharForce ch => (rb.putcharForce ch).1
  | .reset => rb.reset

/-- The buffer after the calls. -/
def forceRun (pool : Nat → UInt8) (size : Nat) (as : List ForceAct) : RtRingbuffer :=
  as.foldl forceStep (RtRingbuffer.init pool size)

/-- The bytes at `ptr`. -/
def bytesAt (ptr : Nat → UInt8) (length : UInt16) : List UInt8 :=
  (List.range length.toNat).map ptr

/-- What a forced put is to do: the newest bytes stay, as many as there is room for, and as if they
had been put one by one. -/
def KeepsNewest (rb : RtRingbuffer) (ptr : Nat → UInt8) (length : UInt16) : Prop :=
  (rb.putForce ptr length).1.contents =
      (rb.contents ++ bytesAt ptr length).rtake rb.bufferSize ∧
    (rb.putForce ptr length).1.contents =
      ((bytesAt ptr length).foldl (fun rb ch => (rb.putcharForce ch).1) rb).contents

/-- The writer is to overtake a reader that has bytes in front of the end of the buffer. -/
def Overtakes (rb : RtRingbuffer) (length : UInt16) : Prop :=
  rb.readMirror = rb.writeMirror ∧ 0 < rb.dataLen ∧ rb.spaceLen < length.toNat

instance (rb : RtRingbuffer) (length : UInt16) : Decidable (Overtakes rb length) :=
  inferInstanceAs (Decidable (_ ∧ _))

/-! ## The newest elements of a list -/

section

variable {α : Type} {l m : List α} {n : Nat}

theorem rtake_rtake_append : (l.rtake n ++ m).rtake n = (l ++ m).rtake n := by
  unfold List.rtake
  by_cases h : n ≤ l.length
  · have hlen : (l.drop (l.length - n)).length = n := by
      rw [List.length_drop]
      omega
    rw [List.length_append, List.length_append, hlen]
    have hsum : l.length + m.length - n = (l.length - n) + (n + m.length - n) := by omega
    rw [hsum, ← List.drop_drop, List.drop_append_of_le_length (by omega : l.length - n ≤ l.length)]
  · rw [Nat.sub_eq_zero_of_le (by omega : l.length ≤ n), List.drop_zero]

theorem rtake_append : (l ++ m).rtake n = l.rtake (n - m.length) ++ m.rtake n := by
  unfold List.rtake
  rw [List.length_append, List.drop_append]
  congr 1
  · by_cases h : m.length ≤ n
    · congr 1
      omega
    · rw [List.drop_of_length_le (by omega), List.drop_of_length_le (by omega)]
  · congr 1
    omega

theorem rtake_foldl {σ : Type} {f : σ → α → σ} {R : σ → List α → Prop}
    (hf : ∀ s l a, R s l → R (f s a) ((l ++ [a]).rtake n)) {s : σ} (hs : R s l)
    (hl : l.rtake n = l) : R (m.foldl f s) ((l ++ m).rtake n) := by
  induction m generalizing s l with
  | nil =>
    rw [List.append_nil, hl]
    exact hs
  | cons a m ih =>
    have h := ih (hf s l a hs) (by
      have := rtake_rtake_append (l := l ++ [a]) (m := []) (n := n)
      rwa [List.append_nil, List.append_nil] at this)
    rw [rtake_rtake_append, List.append_assoc, List.singleton_append] at h
    exact h

end

/-! ## One call -/

variable {rb : RtRingbuffer} {ptr : Nat → UInt8} {length : UInt16} {q : List UInt8} {n k : Nat}

theorem Holds.contents_eq (h : Holds rb q) : rb.contents = q := by
  unfold RtRingbuffer.contents
  rw [h.wf.dataLen]
  exact h.contents

theorem Holds.rtake_eq (h : Holds rb q) : q.rtake rb.bufferSize = q := by
  unfold List.rtake
  rw [Nat.sub_eq_zero_of_le h.wf.entry_le, List.drop_zero]

/-- An empty buffer, wherever its reader and writer are. -/
theorem holds_nil (hs : rb.bufferSize < 32768) (hw : rb.writeIndex < rb.bufferSize)
    (hm : rb.readMirror = rb.writeMirror) (hi : rb.readIndex = rb.writeIndex) : Holds rb [] :=
  ⟨⟨hs, hi ▸ hw, hw, .inl ⟨hm, hi.symm⟩⟩, rfl⟩

/-- The bytes that a forced put copies. -/
def newest (size : Nat) (ptr : Nat → UInt8) (length : UInt16) : List UInt8 :=
  (List.range (if length.toNat > size then size else length.toNat)).map fun i =>
    ptr ((if length.toNat > size then length.toNat - size else 0) + i)

theorem newest_eq (size : Nat) (ptr : Nat → UInt8) (length : UInt16) :
    newest size ptr length = (bytesAt ptr length).rtake size := by
  unfold newest bytesAt List.rtake
  rw [List.length_map, List.length_range]
  by_cases h : length.toNat > size
  · obtain ⟨k, hk⟩ := Nat.exists_eq_add_of_le (Nat.le_of_lt h)
    have hrange : (List.range length.toNat).map ptr =
        (List.range k).map ptr ++ (List.range size).map fun i => ptr (k + i) := by
      rw [hk, Nat.add_comm, List.range_add, List.map_append, List.map_map]
      rfl
    have hskip : length.toNat - size = k := by omega
    rw [if_pos h, if_pos h, hskip, hrange, List.drop_left' (by simp)]
  · rw [if_neg h, if_neg h, Nat.sub_eq_zero_of_le (by omega), List.drop_zero]
    simp only [Nat.zero_add]

/-- The bytes that stay, and those that are copied. -/
theorem Holds.rtake_bytes (h : Holds rb q) (ptr : Nat → UInt8) (length : UInt16) (hn : n =
      if length.toNat > rb.bufferSize then rb.bufferSize else length.toNat) :
    (q ++ bytesAt ptr length).rtake rb.bufferSize =
      q.drop (n - (rb.bufferSize - q.length)) ++ newest rb.bufferSize ptr length := by
  have he := h.wf.entry_le
  have hlen : (bytesAt ptr length).length = length.toNat := by
    unfold bytesAt
    rw [List.length_map, List.length_range]
  rw [rtake_append, newest_eq, hlen]
  unfold List.rtake
  congr 2
  split at hn <;> omega

/-- Where the reader is overtaken, everything is lost; else the newest bytes stay. -/
theorem Holds.putForce (h : Holds rb q) (ptr : Nat → UInt8) (length : UInt16) :
    Holds (rb.putForce ptr length).1
      (if Overtakes rb length then [] else (q ++ bytesAt ptr length).rtake rb.bufferSize) ∧
    (rb.putForce ptr length).1.bufferSize = rb.bufferSize := by
  have hs := h.wf.size
  have hr := h.wf.read
  have hw := h.wf.write
  have he := h.wf.entry_le
  have hbytes := h.rtake_bytes ptr length rfl
  have hover_iff : Overtakes rb length ↔ rb.readMirror = rb.writeMirror ∧ 0 < q.length ∧
      rb.bufferSize - q.length < length.toNat := by
    unfold Overtakes
    rw [h.wf.dataLen, h.wf.spaceLen]
  have hspace : (rb.bufferSize - q.length) % 65536 = rb.bufferSize - q.length :=
    Nat.mod_eq_of_lt (by omega)
  unfold RtRingbuffer.putForce
  rw [hbytes, h.wf.spaceLen, hspace]
  unfold newest
  have hmin : (if length.toNat > rb.bufferSize then rb.bufferSize else length.toNat) =
      min length.toNat rb.bufferSize := by
    split <;> omega
  simp only [hmin]
  generalize (if length.toNat > rb.bufferSize then length.toNat - rb.bufferSize else 0) = skip
  generalize hn : min length.toNat rb.bufferSize = n
  generalize (fun i => ptr (skip + i)) = f
  by_cases hover : n > rb.bufferSize - q.length
  · -- the reader moves on by `n - space` bytes before the bytes are copied
    have hpop := h.pop (n := n - (rb.bufferSize - q.length)) (by omega)
    have hroom : (q.drop (n - (rb.bufferSize - q.length))).length + n ≤ rb.bufferSize := by
      rw [List.length_drop]
      omega
    simp only [if_pos hover]
    rcases h.wf.pos with ⟨hm, hp⟩ | ⟨hm, hp, hle⟩
    · -- the writer goes around the end, the reader should not
      rw [if_pos (hover_iff.mpr ⟨hm, by omega, by omega⟩), if_neg (by omega)]
      refine ⟨holds_nil hs ?_ (congrArg Bool.not hm) rfl, rfl⟩
      show index15 (n - (rb.bufferSize - rb.writeIndex)) < rb.bufferSize
      rw [index15_of_lt (by omega)]
      omega
    · rw [if_neg fun hc => hm (hover_iff.mp hc).1]
      by_cases hrest : rb.bufferSize - rb.writeIndex > n
      · rw [if_pos (by omega)] at hpop
        have hwrite := hpop.write hroom f
        have hread : rb.readIndex + (n - (rb.bufferSize - q.length)) =
            index15 (rb.writeIndex + n) := by
          rw [index15_of_lt (by omega)]
          omega
        simp only [if_pos hrest, hread] at hwrite ⊢
        exact ⟨hwrite, trivial⟩
      · rw [if_neg (by omega)] at hpop
        have hwrite := hpop.write hroom f
        have hread : rb.readIndex + (n - (rb.bufferSize - q.length)) - rb.bufferSize =
            index15 (n - (rb.bufferSize - rb.writeIndex)) := by
          rw [index15_of_lt (by omega)]
          omega
        simp only [if_neg hrest, hread] at hwrite ⊢
        exact ⟨hwrite, trivial⟩
  · have hwrite := h.write (n := n) (by omega) f
    have hzero : n - (rb.bufferSize - q.length) = 0 := by omega
    have hnot : ¬ Overtakes rb length := by
      rw [hover_iff]
      omega
    rw [if_neg hnot, hzero, List.drop_zero]
    simp only [if_neg hover]
    by_cases hrest : rb.bufferSize - rb.writeIndex > n
    · rw [if_pos hrest] at hwrite ⊢
      exact ⟨hwrite, rfl⟩
    · rw [if_neg hrest] at hwrite ⊢
      exact ⟨hwrite, rfl⟩

theorem Wf.full_iff (h : Wf rb q.length) : rb.status = .full ↔ q.length = rb.bufferSize := by
  have hr := h.read
  have hw := h.write
  unfold status
  rcases h.pos with ⟨hm, hp⟩ | ⟨hm, hp, hle⟩
  · by_cases hi : rb.readIndex = rb.writeIndex
    · rw [if_pos hi, if_pos hm]
      exact iff_of_false RingbufferState.noConfusion (by omega)
    · rw [if_neg hi]
      exact iff_of_false RingbufferState.noConfusion (by omega)
  · by_cases hi : rb.readIndex = rb.writeIndex
    · rw [if_pos hi, if_neg hm]
      exact iff_of_true rfl (by omega)
    · rw [if_neg hi]
      exact iff_of_false RingbufferState.noConfusion (by omega)

theorem Holds.putcharForce (h : Holds rb q) (ch : UInt8) :
    Holds (rb.putcharForce ch).1 ((q ++ [ch]).rtake rb.bufferSize) ∧
    (rb.putcharForce ch).1.bufferSize = rb.bufferSize := by
  have hr := h.wf.read
  have hw := h.wf.write
  have he := h.wf.entry_le
  have hs := h.wf.size
  have hfull := h.wf.full_iff
  unfold RtRingbuffer.putcharForce List.rtake
  simp only [hfull, List.length_append, List.length_singleton]
  by_cases hq : q.length = rb.bufferSize
  · have hpop := h.pop (n := 1) (by omega)
    have hone : q.length + 1 - rb.bufferSize = 1 := by omega
    have hdrop : q.length - 1 = (q.drop 1).length := List.length_drop.symm
    have hlt : q.length - 1 < rb.bufferSize := by omega
    rw [hone, List.drop_append_of_le_length (by omega)]
    simp only [if_pos hq]
    rcases h.wf.pos with ⟨hm, hp⟩ | ⟨hm, hp, hle⟩
    · omega
    have hi : rb.readIndex = rb.writeIndex := by omega
    by_cases hlast : rb.writeIndex = rb.bufferSize - 1
    · rw [if_neg (by omega)] at hpop
      have hchar := hpop.pushChar (hdrop ▸ hlt) ch
      have hread : rb.readIndex + 1 - rb.bufferSize = 0 := by omega
      simp only [if_pos hlast, hread] at hchar ⊢
      exact ⟨hchar, trivial⟩
    · rw [if_pos (by omega)] at hpop
      have hchar := hpop.pushChar (hdrop ▸ hlt) ch
      have hread : rb.readIndex + 1 = index15 (rb.writeIndex + 1) := by
        rw [index15_of_lt (by omega), hi]
      simp only [if_neg hlast, hread] at hchar ⊢
      exact ⟨hchar, trivial⟩
  · have hchar := h.pushChar (by omega) ch
    have hzero : q.length + 1 - rb.bufferSize = 0 := by omega
    rw [hzero, List.drop_zero]
    simp only [if_neg hq]
    by_cases hlast : rb.writeIndex = rb.bufferSize - 1
    · simp only [if_pos hlast] at hchar ⊢
      exact ⟨hchar, trivial⟩
    · simp only [if_neg hlast] at hchar ⊢
      exact ⟨hchar, trivial⟩

theorem Holds.putcharsForce (h : Holds rb q) (d : List UInt8) :
    Holds (d.foldl (fun rb ch => (rb.putcharForce ch).1) rb) ((q ++ d).rtake rb.bufferSize) := by
  have hfold := rtake_foldl (m := d) (n := rb.bufferSize)
    (R := fun rb' l => Holds rb' l ∧ rb'.bufferSize = rb.bufferSize)
    (fun rb' l ch hl => by
      obtain ⟨hh, hsize⟩ := hl.1.putcharForce ch
      rw [hl.2] at hh hsize
      exact ⟨hh, hsize⟩) ⟨h, rfl⟩ h.rtake_eq
  exact hfold.1

/-! ## Runs -/

theorem forceStep_holds {capacity : Nat} (hpos : 0 < capacity) (a : ForceAct)
    (h : Holds rb q ∧ rb.bufferSize = capacity) :
    ∃ q', Holds (forceStep rb a) q' ∧ (forceStep rb a).bufferSize = capacity := by
  obtain ⟨hh, hsize⟩ := h
  cases a with
  | call a => exact ⟨_, (step_refines a ⟨hh, hsize⟩).1⟩
  | putForce ptr length =>
    obtain ⟨hp, hs⟩ := hh.putForce ptr length
    exact ⟨_, hp, hs.trans hsize⟩
  | putcharForce ch =>
    obtain ⟨hp, hs⟩ := hh.putcharForce ch
    exact ⟨_, hp, hs.trans hsize⟩
  | reset => exact ⟨[], holds_nil hh.wf.size (hsize ▸ hpos) rfl rfl, hsize⟩

theorem forceRun_holds (pool : Nat → UInt8) {size : Nat} (h1 : 4 ≤ size) (h2 : size ≤ 32767)
    (as : List ForceAct) :
    ∃ q, Holds (forceRun pool size as) q ∧ (forceRun pool size as).bufferSize = size / 4 * 4 := by
  have hrun : ∀ (rb : RtRingbuffer) (q : List UInt8), Holds rb q ∧ rb.bufferSize = size / 4 * 4 →
      ∃ q', Holds (as.foldl forceStep rb) q' ∧
        (as.foldl forceStep rb).bufferSize = size / 4 * 4 := by
    induction as with
    | nil => exact fun rb q h => ⟨q, h⟩
    | cons a as ih =>
      intro rb q h
      obtain ⟨q', h'⟩ := forceStep_holds (by omega) a h
      exact ih _ q' h'
  exact hrun _ [] ⟨holds_init pool h1 h2, rfl⟩

/-- A forced put keeps the newest bytes, as many as the buffer has room for, exactly if the writer
does not overtake a reader that has bytes in front of the end of the buffer. -/
theorem putForce_newest (pool : Nat → UInt8) (size : Nat) (h1 : 4 ≤ size) (h2 : size ≤ 32767)
    (as : List ForceAct) (ptr : Nat → UInt8) (length : UInt16) :
    KeepsNewest (forceRun pool size as) ptr length ↔
      ¬ Overtakes (forceRun pool size as) length := by
  obtain ⟨q, h, hsize⟩ := forceRun_holds pool h1 h2 as
  generalize forceRun pool size as = rb at h hsize
  have hput := (h.putForce ptr length).1.contents_eq
  unfold KeepsNewest
  rw [hput, h.contents_eq, (h.putcharsForce (bytesAt ptr length)).contents_eq]
  by_cases ho : Overtakes rb length
  · have hlen : ((q ++ bytesAt ptr length).rtake rb.bufferSize).length ≠ 0 := by
      have hdata : 0 < q.length := h.wf.dataLen ▸ ho.2.1
      unfold List.rtake
      rw [List.length_drop, List.length_append]
      omega
    rw [if_pos ho]
    refine iff_of_false (fun hc => hlen ?_) (not_not_intro ho)
    rw [← hc.1]
    rfl
  · rw [if_neg ho]
    exact iff_of_true ⟨rfl, rfl⟩ ho

/-- The bytes `n`, `n + 1` and so on. -/
def upFrom (n : Nat) : Nat → UInt8 := fun i => UInt8.ofNat (n + i)

/-- Behind a call of `rt_ringbuffer_get` the writer goes around the end, with the reader in front of
it; a forced put of five bytes into this buffer keeps the last four. -/
theorem putForce_newest_around :
    let rb := forceRun (fun _ => 0) 4 [.call (.put (upFrom 1) 3), .call (.get (fun _ => 0) 2),
      .call (.put (upFrom 4) 2)]
    rb.contents = [3, 4, 5] ∧ KeepsNewest rb (upFrom 6) 5 :=
  ⟨by decide, (putForce_newest (fun _ => 0) 4 (by decide) (by decide) _ (upFrom 6) 5).mpr
    (by decide)⟩

/-- Three bytes, and then two by force: the buffer is empty. -/
theorem putForce_lost : ¬ ∀ (pool : Nat → UInt8) (size : Nat), 4 ≤ size → size ≤ 32767 →
    ∀ as ptr length, KeepsNewest (forceRun pool size as) ptr length := by
  intro h
  have hkeeps := (h (fun _ => 0) 4 (by decide) (by decide) [.call (.put (upFrom 1) 3)]
    (upFrom 4) 2).1
  have hbytes : ((forceRun (fun _ => 0) 4 [.call (.put (upFrom 1) 3)]).putForce
      (upFrom 4) 2).1.contents = [] := by decide
  have hnewest : ((forceRun (fun _ => 0) 4 [.call (.put (upFrom 1) 3)]).contents ++
      bytesAt (upFrom 4) 2).rtake 4 = [2, 3, 4, 5] := by decide
  cases hbytes.symm.trans (hkeeps.trans hnewest)

end Tudu.RingBuffer
