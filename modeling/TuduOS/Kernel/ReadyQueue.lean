import TuduOS.Kernel.Sched

/-!
# The ready queue

* `rtFfs_spec`: `__rt_ffs` finds the lowest bit.
* `Repr s R`: the lists `R` of the heads, the bitmap and the states of the threads say the same. The
  current thread is not part of it.
* `Current`: the running thread is the current one, and the current one is on no ready list.
* For each operation: what it leaves of `Repr` and `Current`; then `ready_queue`, for every run.
-/

namespace Tudu.Sched

open Circular Lts RtSched

/-! ## The lowest bit -/

/-- The bit `p` is the lowest one that is 1. -/
def LowestBit (value : BitVec 32) (p : Nat) : Prop :=
  p < 32 ∧ value.getLsbD p = true ∧ ∀ j, j < p → value.getLsbD j = false

theorem lowestBitBitmap_spec : ∀ b, b < 256 → b ≠ 0 →
    lowestBitBitmap.getD b 0 < 8 ∧ b.testBit (lowestBitBitmap.getD b 0) = true ∧
      ∀ j, j < lowestBitBitmap.getD b 0 → b.testBit j = false := by
  decide +kernel

section Byte

variable {value m : BitVec 32} {k : Nat}

/-- The byte that a mask of eight bits selects. -/
theorem byte_testBit (value : BitVec 32)
    (hm : ∀ j, j < 32 → m.getLsbD j = decide (k ≤ j ∧ j < k + 8)) (i : Nat) :
    ((value &&& m) >>> k).toNat.testBit i = (decide (i < 8) && value.getLsbD (k + i)) := by
  rw [BitVec.testBit_toNat, BitVec.getLsbD_ushiftRight, BitVec.getLsbD_and]
  by_cases hi : k + i < 32
  · rw [hm _ hi, Bool.and_comm]
    simp
  · simp [BitVec.getLsbD_of_ge _ _ (Nat.le_of_not_lt hi)]

/-- The byte is 0: the bits of its place are. -/
theorem byte_zero (hm : ∀ j, j < 32 → m.getLsbD j = decide (k ≤ j ∧ j < k + 8))
    (h : value &&& m = 0) {j : Nat} (hj : k ≤ j) (hj' : j < k + 8) : value.getLsbD j = false := by
  have hb := byte_testBit value hm (j - k)
  rw [h, Nat.add_sub_cancel' hj] at hb
  simpa [show j - k < 8 by omega] using hb

/-- The lowest bit is that of the first byte that is not 0. -/
theorem byte_lowest (hm : ∀ j, j < 32 → m.getLsbD j = decide (k ≤ j ∧ j < k + 8))
    (hk : k ≤ 24) (h : value &&& m ≠ 0) (hlow : ∀ j, j < k → value.getLsbD j = false) :
    LowestBit value (lowestBitBitmap.getD ((value &&& m) >>> k).toNat 0 + k) := by
  have hbit := byte_testBit value hm
  generalize hb : ((value &&& m) >>> k).toNat = b at hbit
  have hlt : b < 256 := by
    refine Nat.lt_pow_two_of_testBit (n := 8) b fun i hi => ?_
    rw [hbit, decide_eq_false (by omega), Bool.false_and]
  have hne : b ≠ 0 := by
    rintro rfl
    refine h (BitVec.eq_of_getLsbD_eq fun j hj => ?_)
    rw [BitVec.getLsbD_and, hm j hj]
    by_cases hjk : k ≤ j ∧ j < k + 8
    · have hz := hbit (j - k)
      rw [Nat.zero_testBit, Nat.add_sub_cancel' hjk.1, decide_eq_true (by omega)] at hz
      rw [← hz.trans (Bool.true_and _), Bool.false_and]
      exact BitVec.getLsbD_zero.symm
    · simp [hjk]
  obtain ⟨h1, h2, h3⟩ := lowestBitBitmap_spec b hlt hne
  refine ⟨by omega, ?_, fun j hj => ?_⟩
  · rw [hbit, Nat.add_comm] at h2
    exact (Bool.and_eq_true_iff.mp h2).2
  · by_cases hjk : j < k
    · exact hlow j hjk
    · have hz := h3 (j - k) (by omega)
      rw [hbit, Nat.add_sub_cancel' (Nat.le_of_not_lt hjk), decide_eq_true (by omega)] at hz
      simpa using hz

end Byte

/-- `__rt_ffs` gives the number of the lowest bit, from 1 on. -/
theorem rtFfs_spec {value : BitVec 32} (h : value ≠ 0) :
    ∃ p, rtFfs value = p + 1 ∧ LowestBit value p := by
  have m0 : ∀ j, j < 32 → (0xff#32).getLsbD j = decide (0 ≤ j ∧ j < 0 + 8) := by decide
  have m1 : ∀ j, j < 32 → (0xff00#32).getLsbD j = decide (8 ≤ j ∧ j < 8 + 8) := by decide
  have m2 : ∀ j, j < 32 → (0xff0000#32).getLsbD j = decide (16 ≤ j ∧ j < 16 + 8) := by decide
  have m3 : ∀ j, j < 32 → (0xff000000#32).getLsbD j = decide (24 ≤ j ∧ j < 24 + 8) := by decide
  unfold rtFfs
  rw [if_neg h]
  split
  · next h0 =>
    have hl := byte_lowest m0 (by omega) h0 fun j hj => absurd hj (Nat.not_lt_zero j)
    exact ⟨_, rfl, hl⟩
  · next h0 =>
    have z0 : ∀ j, j < 8 → value.getLsbD j = false := fun j hj =>
      byte_zero m0 (not_not.mp h0) (Nat.zero_le j) (by omega)
    split
    · next h1 => exact ⟨_, rfl, byte_lowest m1 (by omega) h1 z0⟩
    · next h1 =>
      have z1 : ∀ j, j < 16 → value.getLsbD j = false := fun j hj => by
        by_cases hj' : j < 8
        · exact z0 j hj'
        · exact byte_zero m1 (not_not.mp h1) (by omega) (by omega)
      split
      · next h2 => exact ⟨_, rfl, byte_lowest m2 (by omega) h2 z1⟩
      · next h2 =>
        have z2 : ∀ j, j < 24 → value.getLsbD j = false := fun j hj => by
          by_cases hj' : j < 16
          · exact z1 j hj'
          · exact byte_zero m2 (not_not.mp h2) (by omega) (by omega)
        refine ⟨_, rfl, byte_lowest m3 (by omega) (fun h3 => h ?_) z2⟩
        refine BitVec.eq_of_getLsbD_eq fun j hj => ?_
        show value.getLsbD j = (0#32).getLsbD j
        rw [BitVec.getLsbD_zero]
        by_cases hj' : j < 24
        · exact z2 j hj'
        · exact byte_zero m3 h3 (by omega) (by omega)

theorem priorityMask_bit {p : Nat} (hp : p < 32) (j : Nat) :
    (priorityMask p).getLsbD j = decide (j = p) := by
  rw [priorityMask, BitVec.getLsbD_shiftLeft, BitVec.getLsbD_one]
  by_cases hj : j = p
  · subst hj
    simp [hp]
  · by_cases hjp : j < p
    · simp [hj, hjp]
    · have hne : j - p ≠ 0 := by omega
      simp [hj, hne]

/-! ## The three views -/

/-- The mask of a thread, which is set when it is started. -/
def MaskOk (x : RtThread) : Prop := x.numberMask = priorityMask x.currentPriority

/-- The fields of a thread fit each other. -/
structure Fields (x : RtThread) : Prop where
  current : x.currentPriority < 32
  init : x.initPriority < 32
  mask : x.stat ≠ .init → x.stat ≠ .close → MaskOk x

/-- The lists of the heads are `R`; the bitmap and the states of the threads say the same. -/
structure Repr (s : RtSched) (R : Head → List Nat) : Prop where
  rings : Rings s.links R
  bit : ∀ p, s.group.getLsbD p = true ↔ R (.ready p) ≠ []
  ready : ∀ t p, t ∈ R (.ready p) ↔
    (s.thread t).stat = .ready ∧ (s.thread t).currentPriority = p
  fields : ∀ t, Fields (s.thread t)
  alone : ∀ t, (s.thread t).stat = .running ∨ (s.thread t).stat = .init → ∀ q, t ∉ R q

structure Current (s : RtSched) : Prop where
  running : ∀ t, (s.thread t).stat = .running → s.current = some t
  off : ∀ t, s.current = some t → (s.thread t).stat ≠ .ready ∧ (s.thread t).stat ≠ .init
  mask : ∀ t, s.current = some t → MaskOk (s.thread t)

variable {s s' : RtSched} {R : Head → List Nat} {t u c p : Nat} {x : RtThread}

@[simp] theorem setThread_thread : (s.setThread t x).thread u =
    if u = t then x else s.thread u := by
  simp only [setThread, Function.update_apply]

namespace Repr

theorem congr (h : Repr s R) (hl : s'.links = s.links) (hg : s'.group = s.group)
    (ht : s'.thread = s.thread) : Repr s' R := by
  refine ⟨?_, ?_, ?_, ?_, ?_⟩
  · rw [hl]
    exact h.rings
  · rw [hg]
    exact h.bit
  · rw [ht]
    exact h.ready
  · rw [ht]
    exact h.fields
  · rw [ht]
    exact h.alone

/-- A new record of a thread that is on the same list as before. -/
theorem setThread (h : Repr s R) (hx : Fields x) (hr : x.stat = .ready ↔ (s.thread t).stat = .ready)
    (hp : x.stat = .ready → x.currentPriority = (s.thread t).currentPriority)
    (ha : x.stat = .running ∨ x.stat = .init → ∀ q, t ∉ R q) : Repr (s.setThread t x) R := by
  refine ⟨h.rings, h.bit, fun u p => ?_, fun u => ?_, fun u hu => ?_⟩
  · rw [h.ready, setThread_thread]
    split
    · next hut =>
      subst hut
      constructor
      · rintro ⟨h1, h2⟩
        exact ⟨hr.mpr h1, (hp (hr.mpr h1)).trans h2⟩
      · rintro ⟨h1, h2⟩
        exact ⟨hr.mp h1, (hp h1).symm.trans h2⟩
    · exact Iff.rfl
  · rw [setThread_thread]
    split
    · exact hx
    · exact h.fields u
  · rw [setThread_thread] at hu
    split at hu
    · next hut =>
      rw [hut]
      exact ha hu
    · exact h.alone u hu

theorem not_mem_erase (h : Repr s R) (t : Nat) (q : Head) : t ∉ (R q).erase t :=
  (h.rings.nodup q).not_mem_erase

/-- A thread that is not ready is on no ready list. -/
theorem erase_ready (h : Repr s R) (ht : (s.thread t).stat ≠ .ready ∨
    (s.thread t).currentPriority ≠ p) : (R (.ready p)).erase t = R (.ready p) := by
  refine List.erase_of_not_mem fun hm => ?_
  obtain ⟨h1, h2⟩ := (h.ready t p).mp hm
  exact ht.elim (absurd h1) (absurd h2)

/-- `rt_schedule_remove_thread` of a thread that is not ready afterwards. -/
theorem leave (h : Repr s R) (hm : MaskOk (s.thread t)) (hx : Fields x) (hr : x.stat ≠ .ready) :
    Repr ((s.rtScheduleRemoveThread t).setThread t x) fun q => (R q).erase t := by
  have hrings := h.rings.remove t
  have hf := h.fields t
  refine ⟨hrings, fun p => ?_, fun u p => ?_, fun u => ?_, fun u hu q => ?_⟩
  · show (if _ then _ else _ : BitVec 32).getLsbD p = true ↔ (R (.ready p)).erase t ≠ []
    by_cases hp : p = (s.thread t).currentPriority
    · rw [hp]
      split
      · next he =>
        have he := hrings.isEmpty_iff.mp he
        rw [BitVec.getLsbD_and, BitVec.getLsbD_not, show _ = _ from hm, priorityMask_bit hf.current]
        simp [he]
      · next he =>
        have he : (R (.ready (s.thread t).currentPriority)).erase t ≠ [] := fun hn =>
          he (hrings.isEmpty_iff.mpr hn)
        rw [h.bit]
        refine iff_of_true (fun hn => he ?_) he
        rw [hn]
        rfl
    · rw [h.erase_ready (.inr (Ne.symm hp)), ← h.bit]
      split
      · rw [BitVec.getLsbD_and, BitVec.getLsbD_not, show _ = _ from hm, priorityMask_bit hf.current]
        by_cases hp' : p < 32
        · simp [hp, hp']
        · rw [BitVec.getLsbD_of_ge _ _ (Nat.le_of_not_lt hp'), Bool.false_and]
      · exact Iff.rfl
  · rw [setThread_thread]
    split
    · next hut =>
      rw [hut]
      exact iff_of_false (h.not_mem_erase t _) fun hc => hr hc.1
    · next hut =>
      rw [List.mem_erase_of_ne hut]
      exact h.ready u p
  · rw [setThread_thread]
    split
    · exact hx
    · exact h.fields u
  · rw [setThread_thread] at hu
    split at hu
    · next hut =>
      rw [hut]
      exact h.not_mem_erase t q
    · exact fun hm => h.alone u hu q (List.mem_of_mem_erase hm)

/-- `rt_schedule_insert_thread` of a thread that is on no list and not the current one. -/
theorem insert (h : Repr s R) (hc : s.current ≠ some t) (hm : MaskOk (s.thread t))
    (ha : ∀ q, t ∉ R q) :
    Repr (s.rtScheduleInsertThread t) (Function.update R (.ready (s.thread t).currentPriority)
      (R (.ready (s.thread t).currentPriority) ++ [t])) := by
  have hf := h.fields t
  unfold rtScheduleInsertThread
  rw [if_neg hc]
  refine ⟨h.rings.insertBefore_head ha, fun p => ?_, fun u p => ?_, fun u => ?_, fun u hu q => ?_⟩
  · show (s.group ||| (s.thread t).numberMask).getLsbD p = true ↔ _
    rw [BitVec.getLsbD_or, show _ = _ from hm, priorityMask_bit hf.current]
    by_cases hp : p = (s.thread t).currentPriority
    · rw [hp, Function.update_self]
      simp
    · rw [Function.update_of_ne (fun e => hp (Head.ready.inj e)), ← h.bit]
      simp [hp]
  · show _ ↔ ((s.setStat t .ready).thread u).stat = .ready ∧ _
    rw [setStat, setThread_thread]
    by_cases hut : u = t
    · rw [hut, if_pos rfl]
      by_cases hp : p = (s.thread t).currentPriority
      · rw [hp, Function.update_self]
        simp
      · rw [Function.update_of_ne (fun e => hp (Head.ready.inj e))]
        exact iff_of_false (ha _) fun hc => hp hc.2.symm
    · rw [if_neg hut, ← h.ready]
      by_cases hp : p = (s.thread t).currentPriority
      · rw [hp, Function.update_self]
        simp [hut]
      · rw [Function.update_of_ne (fun e => hp (Head.ready.inj e))]
  · show Fields ((s.setStat t .ready).thread u)
    rw [setStat, setThread_thread]
    split
    · exact ⟨hf.current, hf.init, fun _ _ => hm⟩
    · exact h.fields u
  · have hu' : ((s.setStat t .ready).thread u).stat = .running ∨
      ((s.setStat t .ready).thread u).stat = .init := hu
    rw [setStat, setThread_thread] at hu'
    split at hu'
    · rcases hu' with hu' | hu' <;> cases hu'
    · next hut =>
      rw [Function.update_apply]
      split
      · rw [List.mem_append, List.mem_singleton, not_or]
        exact ⟨h.alone u hu' _, hut⟩
      · exact h.alone u hu' q

/-- A thread that is not ready is taken off its list. -/
theorem unlink (h : Repr s R) (ht : (s.thread t).stat ≠ .ready) :
    Repr (s.unlink t) fun q => (R q).erase t := by
  refine ⟨h.rings.remove t, fun p => ?_, fun u p => ?_, h.fields, fun u hu q hm => ?_⟩
  · rw [h.erase_ready (.inl ht)]
    exact h.bit p
  · rw [h.erase_ready (.inl ht)]
    exact h.ready u p
  · exact h.alone u hu q (List.mem_of_mem_erase hm)

/-- A thread goes on a list that is not a ready list. -/
theorem link {L : Links Node} {q : Head} {l : List Nat} (h : Repr s R)
    (hL : Rings L (Function.update R q l)) (hq : ∀ p, q ≠ .ready p) (hl : ∀ u ∈ l, u ∈ R q ∨ u = t)
    (ht : (s.thread t).stat ≠ .running ∧ (s.thread t).stat ≠ .init) :
    Repr { s with links := L } (Function.update R q l) := by
  have hready : ∀ p, Function.update R q l (.ready p) = R (.ready p) := fun p =>
    Function.update_of_ne (Ne.symm (hq p)) ..
  refine ⟨hL, fun p => ?_, fun u p => ?_, h.fields, fun u hu q' hm => ?_⟩
  · rw [hready]
    exact h.bit p
  · rw [hready]
    exact h.ready u p
  · rw [Function.update_apply] at hm
    split at hm
    · rcases hl u hm with hm | hut
      · exact h.alone u hu q hm
      · rw [hut] at hu
        exact hu.elim ht.1 ht.2
    · exact h.alone u hu q' hm

end Repr

/-- What holds in every state of every run. -/
structure Inv (s : RtSched) : Prop where
  repr : ∃ R, Repr s R
  current : Current s
  ordered : s.ordered

/-! ## The operations -/

/-- A new record of a thread that is on the same list as before. -/
theorem Inv.setThread (h : Inv s) (hx : Fields x)
    (hr : x.stat = .ready ↔ (s.thread t).stat = .ready)
    (hp : x.stat = .ready → x.currentPriority = (s.thread t).currentPriority)
    (hi : x.stat = .init → (s.thread t).stat = .init)
    (hrun : x.stat = .running → (s.thread t).stat = .running)
    (hoff : s.current = some t → x.stat ≠ .init ∧ MaskOk x) : Inv (s.setThread t x) := by
  obtain ⟨R, hR⟩ := h.repr
  refine ⟨⟨R, hR.setThread hx hr hp fun hs => ?_⟩,
    ⟨fun u hu => ?_, fun u hu => ?_, fun u hu => ?_⟩, h.ordered⟩
  · exact hR.alone t (hs.imp hrun hi)
  · rw [setThread_thread] at hu
    split at hu
    · next hut =>
      rw [hut]
      exact h.current.running t (hrun hu)
    · exact h.current.running u hu
  · rw [setThread_thread]
    split
    · next hut =>
      rw [hut] at hu
      exact ⟨fun hs => (h.current.off t hu).1 (hr.mp hs), (hoff hu).1⟩
    · exact h.current.off u hu
  · rw [setThread_thread]
    split
    · next hut =>
      rw [hut] at hu
      exact (hoff hu).2
    · exact h.current.mask u hu

/-- Fields that no list depends on. -/
theorem Inv.setFields (h : Inv s) (hs : x.stat = (s.thread t).stat)
    (hp : x.currentPriority = (s.thread t).currentPriority)
    (hi : x.initPriority = (s.thread t).initPriority)
    (hm : x.numberMask = (s.thread t).numberMask) : Inv (s.setThread t x) := by
  obtain ⟨R, hR⟩ := h.repr
  have hf := hR.fields t
  refine h.setThread ⟨?_, ?_, ?_⟩ (by rw [hs]) (fun _ => hp) (fun he => hs.symm.trans he)
    (fun he => hs.symm.trans he) fun hc => ?_
  · rw [hp]
    exact hf.current
  · rw [hi]
    exact hf.init
  · rw [hs, MaskOk, hm, hp]
    exact hf.mask
  · rw [hs, MaskOk, hm, hp]
    exact ⟨(h.current.off t hc).2, h.current.mask t hc⟩

theorem Inv.setTimer (h : Inv s) (t : Nat) (b : Bool) : Inv (s.setTimer t b) :=
  h.setFields rfl rfl rfl rfl

/-- A thread is taken off its list, and is not ready afterwards. -/
theorem Inv.leave (h : Inv s) (hm : MaskOk (s.thread t)) (hx : Fields x) (hxm : MaskOk x)
    (hr : x.stat ≠ .ready ∧ x.stat ≠ .init) (hrun : x.stat = .running → s.current = some t) :
    Inv ((s.rtScheduleRemoveThread t).setThread t x) ∧
      ∃ R, Repr ((s.rtScheduleRemoveThread t).setThread t x) R ∧ ∀ q, t ∉ R q := by
  obtain ⟨R, hR⟩ := h.repr
  have hL := hR.leave hm hx hr.1
  refine ⟨⟨⟨_, hL⟩, ⟨fun u hu => ?_, fun u hu => ?_, fun u hu => ?_⟩, h.ordered⟩, _, hL,
    hR.not_mem_erase t⟩
  · rw [setThread_thread] at hu
    split at hu
    · next hut =>
      rw [hut]
      exact hrun hu
    · exact h.current.running u hu
  · rw [setThread_thread]
    split
    · exact hr
    · exact h.current.off u hu
  · rw [setThread_thread]
    split
    · exact hxm
    · exact h.current.mask u hu

theorem Inv.suspend (h : Inv s) (hs : s.rtThreadSuspend t = some s') : Inv s' := by
  simp only [rtThreadSuspend] at hs
  obtain ⟨R, hR⟩ := h.repr
  have hf := hR.fields t
  split at hs
  · next hst =>
    have hm : MaskOk (s.thread t) := by
      rcases hst with he | he <;> exact hf.mask (by simp [he]) (by simp [he])
    split at hs <;> cases hs
    exact (h.leave (x := { s.thread t with stat := .suspend, timer := false }) hm
      ⟨hf.current, hf.init, fun _ _ => hm⟩ hm (by simp) (by simp)).1
  · cases hs
    exact h

/-- `rt_schedule_insert_thread` of a thread that is on no list. -/
theorem Inv.insert (h : Inv s) (ht : (s.thread t).stat = .suspend) (hR : Repr s R)
    (ha : ∀ q, t ∉ R q) : Inv (s.rtScheduleInsertThread t) := by
  have hf := hR.fields t
  have hm : MaskOk (s.thread t) := hf.mask (by simp [ht]) (by simp [ht])
  by_cases hc : s.current = some t
  · -- the current thread goes on
    unfold rtScheduleInsertThread
    rw [if_pos hc]
    refine ⟨⟨R, hR.setThread ⟨hf.current, hf.init, fun _ _ => hm⟩ (by simp [ht])
      (fun _ => rfl) fun _ => ha⟩, ⟨fun u hu => ?_, fun u hu => ?_, fun u hu => ?_⟩, h.ordered⟩
    · rw [setStat, setThread_thread] at hu
      split at hu
      · next hut =>
        rw [hut]
        exact hc
      · exact h.current.running u hu
    · rw [setStat, setThread_thread]
      split
      · simp
      · exact h.current.off u hu
    · rw [setStat, setThread_thread]
      split
      · exact hm
      · exact h.current.mask u hu
  · have hI := hR.insert hc hm ha
    have hthr : ∀ u, (s.rtScheduleInsertThread t).thread u =
        if u = t then { s.thread t with stat := .ready } else s.thread u := by
      intro u
      unfold rtScheduleInsertThread
      rw [if_neg hc]
      exact setThread_thread
    have hcur : (s.rtScheduleInsertThread t).current = s.current := by
      unfold rtScheduleInsertThread
      rw [if_neg hc]
      rfl
    have hord : (s.rtScheduleInsertThread t).ordered = s.ordered := by
      unfold rtScheduleInsertThread
      rw [if_neg hc]
      rfl
    refine ⟨⟨_, hI⟩, ⟨fun u hu => ?_, fun u hu => ?_, fun u hu => ?_⟩, by
      rw [hord]
      exact h.ordered⟩
    · rw [hcur]
      rw [hthr] at hu
      split at hu
      · cases hu
      · exact h.current.running u hu
    · rw [hcur] at hu
      rw [hthr, if_neg]
      · exact h.current.off u hu
      · rintro rfl
        exact hc hu
    · rw [hcur] at hu
      rw [hthr, if_neg]
      · exact h.current.mask u hu
      · rintro rfl
        exact hc hu

/-- A suspended thread is woken up. -/
theorem Inv.wake (h : Inv s) (ht : (s.thread t).stat = .suspend) :
    Inv ((s.unlink t).rtScheduleInsertThread t) := by
  obtain ⟨R, hR⟩ := h.repr
  have hU := hR.unlink (t := t) (by simp [ht])
  have hI : Inv (s.unlink t) :=
    ⟨⟨_, hU⟩, ⟨h.current.running, h.current.off, h.current.mask⟩, h.ordered⟩
  exact hI.insert ht hU (hR.not_mem_erase t)

theorem Inv.resume (h : Inv s) (t : Nat) : Inv (s.rtThreadResume t) := by
  unfold rtThreadResume
  split
  · next hst =>
    have hw : Inv (((s.setTimer t false).unlink t).rtScheduleInsertThread t) := by
      refine (h.setTimer t false).wake ?_
      rw [RtSched.setTimer, setThread_thread, if_pos rfl]
      exact hst
    exact hw
  · exact h

/-- `RT_THREAD_CTRL_CHANGE_PRIORITY` -/
theorem Inv.changePriority (h : Inv s) (t : Nat) (hp : p < 32) : Inv (s.changePriority t p) := by
  obtain ⟨R, hR⟩ := h.repr
  have hf := hR.fields t
  unfold RtSched.changePriority
  split
  · next hst =>
    -- between the removal and the insertion the thread is as a suspended one
    have hm : MaskOk (s.thread t) := hf.mask (by simp [hst]) (by simp [hst])
    have hc : s.current ≠ some t := fun hc => (h.current.off t hc).1 hst
    obtain ⟨hL, R', hR', ha⟩ := h.leave (t := t) (x := { s.thread t with
      currentPriority := p, numberMask := priorityMask p, stat := .suspend }) hm
      ⟨hp, hf.init, fun _ _ => rfl⟩ rfl (by simp) (by simp)
    have hI := hL.insert (t := t) (by rw [setThread_thread, if_pos rfl]) hR' ha
    have he : ((s.rtScheduleRemoveThread t).setPriority t p).rtScheduleInsertThread t =
        ((s.rtScheduleRemoveThread t).setThread t { s.thread t with
          currentPriority := p, numberMask := priorityMask p,
          stat := .suspend }).rtScheduleInsertThread t := by
      unfold rtScheduleInsertThread
      rw [if_neg (by exact hc), if_neg (by exact hc)]
      simp only [setPriority, setStat, RtSched.setThread, Function.update_self,
        Function.update_idem]
      rfl
    rw [he]
    exact hI
  · next hst =>
    exact h.setThread ⟨hp, hf.init, fun _ _ => rfl⟩ Iff.rfl (fun he => absurd he hst)
      (fun he => he) (fun he => he) fun hc => ⟨(h.current.off t hc).2, rfl⟩

/-! ## `rt_schedule` -/

/-- The first ready thread, and what its priority says. -/
theorem Repr.highest (h : Repr s R) (hg : s.group ≠ 0) :
    ∃ u p, s.getHighestPriorityThread = some (u, p) ∧ (s.thread u).stat = .ready ∧
      (s.thread u).currentPriority = p ∧
      ∀ v, (s.thread v).stat = .ready → p ≤ (s.thread v).currentPriority := by
  obtain ⟨p, hp, -, hbit, hlow⟩ := rtFfs_spec hg
  have hne := (h.bit p).mp hbit
  obtain ⟨u, l, hl⟩ := List.exists_cons_of_ne_nil hne
  have hu := (h.ready u p).mp (by rw [hl]; exact List.mem_cons_self)
  refine ⟨u, p, ?_, hu.1, hu.2, fun v hv => ?_⟩
  · unfold getHighestPriorityThread
    rw [hp]
    simp only [h.rings.next_head hl]
  · by_contra hlt
    have hv' := (h.ready v _).mpr ⟨hv, rfl⟩
    have hb := (h.bit _).mpr (List.ne_nil_of_mem hv')
    rw [hlow _ (Nat.lt_of_not_le hlt)] at hb
    cases hb

theorem Repr.none_ready (h : Repr s R) (hg : s.group = 0) (v : Nat) :
    (s.thread v).stat ≠ .ready := by
  intro hv
  have hb := (h.bit _).mpr (List.ne_nil_of_mem ((h.ready v _).mpr ⟨hv, rfl⟩))
  rw [hg] at hb
  exact absurd hb (by simp)

/-- A thread is taken off its list and runs: the only running one, and the current one. -/
theorem Repr.run (h : Repr s R) (hu : MaskOk (s.thread u)) (hc : s.current = some u)
    (hno : ∀ v, v ≠ u → (s.thread v).stat ≠ .running)
    (hhigh : ∀ v, (s.thread v).stat = .ready →
      (s.thread u).currentPriority ≤ (s.thread v).currentPriority) :
    (∃ R', Repr ((s.rtScheduleRemoveThread u).setStat u .running) R') ∧
      Current ((s.rtScheduleRemoveThread u).setStat u .running) ∧
      ((s.rtScheduleRemoveThread u).setStat u .running).Highest := by
  have hf := h.fields u
  refine ⟨⟨_, h.leave (x := { s.thread u with stat := .running }) hu
    ⟨hf.current, hf.init, fun _ _ => hu⟩ (by simp)⟩,
    ⟨fun v hv => ?_, fun v hv => ?_, fun v hv => ?_⟩, fun c v hc' hv => ?_⟩
  · rw [setStat, setThread_thread] at hv
    split at hv
    · next hvu =>
      rw [hvu]
      exact hc
    · next hvu => exact absurd hv (hno v hvu)
  · have hvu : v = u := Option.some.inj (hv.symm.trans hc)
    rw [setStat, setThread_thread, if_pos hvu]
    exact ⟨by simp, by simp⟩
  · have hvu : v = u := Option.some.inj (hv.symm.trans hc)
    rw [setStat, setThread_thread, if_pos hvu]
    exact hu
  · have hcu : c = u := Option.some.inj (hc'.symm.trans hc)
    rw [setStat, setThread_thread] at hv
    rw [setStat, setThread_thread, setThread_thread, if_pos hcu]
    split at hv
    · cases hv
    · next hvu =>
      rw [if_neg hvu]
      exact hhigh v hv

/-- The switch to another thread `u`, when the thread `c` is not running. -/
theorem Repr.switch (h : Repr s R) (hu : (s.thread u).stat = .ready)
    (hno : ∀ v, (s.thread v).stat ≠ .running)
    (hhigh : ∀ v, (s.thread v).stat = .ready →
      (s.thread u).currentPriority ≤ (s.thread v).currentPriority) (huc : u ≠ c) :
    (∃ R', Repr (s.switchTo c u false) R') ∧ Current (s.switchTo c u false) ∧
      (s.switchTo c u false).Highest := by
  have hr : Repr { s with current := some u } R := h.congr rfl rfl rfl
  simp only [switchTo, ne_eq, huc, not_false_eq_true, if_true, Bool.false_eq_true, if_false]
  exact hr.run ((h.fields u).mask (by simp [hu]) (by simp [hu])) rfl (fun v _ => hno v) hhigh

/-- How `rt_schedule` ends: there is no ready thread; or the current thread goes on; or the first
ready thread `u` runs, and the current thread, if it was running, goes behind those of its
priority. -/
theorem switchThread_cases (h : Inv s) (hs : s.switchThread = some s') :
    (s' = s ∧ ∀ v, (s.thread v).stat ≠ .ready) ∨
      ∃ c u, s.current = some c ∧ u ≠ c ∧ (s.thread u).stat = .ready ∧
        (∀ v, (s.thread v).stat = .ready →
          (s.thread u).currentPriority ≤ (s.thread v).currentPriority) ∧
        s.links.next (.head (.ready (s.thread u).currentPriority)) = .item u ∧
        (s' = s.switchTo c c false ∧ (s.thread c).stat = .running ∧
            ((s.thread c).currentPriority < (s.thread u).currentPriority ∨
              (s.thread c).currentPriority = (s.thread u).currentPriority ∧
                (s.thread c).yield = false) ∨
          s' = (s.setThread c { s.thread c with yield := false }).switchTo c u true ∧
            (s.thread c).stat = .running ∧
            ((s.thread u).currentPriority < (s.thread c).currentPriority ∨
              (s.thread u).currentPriority = (s.thread c).currentPriority ∧
                (s.thread c).yield = true) ∨
          s' = s.switchTo c u false ∧ (s.thread c).stat ≠ .running) := by
  obtain ⟨R, hR⟩ := h.repr
  unfold switchThread at hs
  split at hs
  · next hg =>
    cases hs
    exact .inl ⟨rfl, hR.none_ready hg⟩
  · next hg =>
    obtain ⟨u, p, hget, hu, hup, hlow⟩ := hR.highest hg
    rw [hget] at hs
    split at hs
    · next c _ _ hc he =>
      cases he
      have huc : u ≠ c := by
        rintro rfl
        exact (h.current.off u hc).1 hu
      have hfirst : s.links.next (.head (.ready p)) = .item u := by
        unfold getHighestPriorityThread at hget
        split at hget
        · cases hget
        · split at hget
          · next hn =>
            cases hget
            exact hn
          · cases hget
      refine .inr ⟨c, u, hc, huc, hu, by rw [hup]; exact hlow, by rw [hup]; exact hfirst, ?_⟩
      rw [hup]
      simp only [chooseThread] at hs
      split at hs
      · next hrun =>
        split at hs
        · next hlt =>
          cases hs
          exact .inl ⟨rfl, hrun, .inl hlt⟩
        · next hlt =>
          split at hs
          · next heq =>
            cases hs
            exact .inl ⟨rfl, hrun, .inr heq⟩
          · next hne =>
            cases hs
            refine .inr (.inl ⟨rfl, hrun, ?_⟩)
            rcases Nat.lt_or_ge p (s.thread c).currentPriority with hp | hp
            · exact .inl hp
            · have heq : (s.thread c).currentPriority = p :=
                Nat.le_antisymm hp (Nat.le_of_not_lt hlt)
              refine .inr ⟨heq.symm, ?_⟩
              rcases Bool.eq_false_or_eq_true (s.thread c).yield with hy | hy
              · exact hy
              · exact absurd ⟨heq, hy⟩ hne
      · next hrun =>
        cases hs
        exact .inr (.inr ⟨rfl, hrun⟩)
    · cases hs

/-- The threads after a running thread `c` made room for `u`. -/
theorem switchTo_thread (huc : u ≠ c) (v : Nat) :
    ((s.setThread c { s.thread c with yield := false }).switchTo c u true).thread v =
      if v = u then { s.thread u with stat := .running }
      else if v = c then { s.thread c with yield := false, stat := .ready }
      else s.thread v := by
  have hins : some u ≠ some c := fun e => huc (Option.some.inj e)
  simp only [switchTo, ne_eq, huc, not_false_eq_true, if_true, rtScheduleInsertThread, hins,
    if_false, rtScheduleRemoveThread, setStat, RtSched.setThread, Function.update_apply]
  split
  · rfl
  · split <;> rfl

/-- A running thread makes room for the first ready one, and goes to the end of its list. -/
theorem Repr.switchRunning (h : Repr s R) (hrun : (s.thread c).stat = .running)
    (hcm : MaskOk (s.thread c)) (hu : (s.thread u).stat = .ready) (huc : u ≠ c)
    (honly : ∀ v, v ≠ c → (s.thread v).stat ≠ .running)
    (hle : (s.thread u).currentPriority ≤ (s.thread c).currentPriority)
    (hhigh : ∀ v, (s.thread v).stat = .ready →
      (s.thread u).currentPriority ≤ (s.thread v).currentPriority) :
    ((∃ R', Repr ((s.setThread c { s.thread c with yield := false }).switchTo c u true) R') ∧
      Current ((s.setThread c { s.thread c with yield := false }).switchTo c u true) ∧
      ((s.setThread c { s.thread c with yield := false }).switchTo c u true).Highest) ∧
      ((s.setThread c { s.thread c with yield := false }).switchTo c u true).links.prev
        (.head (.ready (s.thread c).currentPriority)) = .item c := by
  have hf := h.fields c
  have hins : some u ≠ some c := fun e => huc (Option.some.inj e)
  have h1 : Repr (s.setThread c { s.thread c with yield := false }) R :=
    h.setThread ⟨hf.current, hf.init, hf.mask⟩ Iff.rfl (fun _ => rfl) (h.alone c)
  have h2 : Repr { s.setThread c { s.thread c with yield := false } with
      current := some u } R := h1.congr rfl rfl rfl
  have h3 := h2.insert (t := c) hins
    (by simpa [RtSched.setThread, MaskOk] using hcm) (h.alone c (.inl hrun))
  have hthr : ∀ v, ({ s.setThread c { s.thread c with yield := false } with
      current := some u }.rtScheduleInsertThread c).thread v =
      if v = c then { s.thread c with yield := false, stat := .ready }
      else s.thread v := by
    intro v
    unfold rtScheduleInsertThread
    rw [if_neg hins]
    show (Function.update _ c _ : Nat → RtThread) v = _
    simp only [Function.update_apply, RtSched.setThread, if_true]
    split <;> rfl
  have hum : MaskOk (({ s.setThread c { s.thread c with yield := false } with
      current := some u }.rtScheduleInsertThread c).thread u) := by
    rw [hthr, if_neg huc]
    exact (h.fields u).mask (by simp [hu]) (by simp [hu])
  have hcur : ({ s.setThread c { s.thread c with yield := false } with
      current := some u }.rtScheduleInsertThread c).current = some u := by
    unfold rtScheduleInsertThread
    rw [if_neg hins]
    rfl
  have h4 := h3.run hum hcur
    (fun v _ => by
      rw [hthr]
      split
      · simp
      · next hvc => exact honly v hvc)
    fun v hv => by
      rw [hthr, if_neg huc, hthr]
      rw [hthr] at hv
      split
      · exact hle
      · next hvc =>
        rw [if_neg hvc] at hv
        exact hhigh v hv
  have h5 := (h3.leave (x := { s.thread u with stat := .running }) hum
    ⟨(h.fields u).current, (h.fields u).init, fun _ _ =>
      (h.fields u).mask (by simp [hu]) (by simp [hu])⟩ (by simp)).rings.prev_head
    (.ready (s.thread c).currentPriority)
  have hself : ({ s.setThread c { s.thread c with yield := false } with
      current := some u }.thread c).currentPriority = (s.thread c).currentPriority := by
    simp [RtSched.setThread]
  rw [hself, Function.update_self, List.erase_append] at h5
  have hc1 : [c].erase u = [c] := List.erase_of_not_mem fun hm => huc (List.mem_singleton.mp hm)
  simp only [switchTo, ne_eq, huc, not_false_eq_true, if_true]
  refine ⟨h4, ?_⟩
  rw [hc1] at h5
  split at h5
  · rw [Node.last_concat] at h5
    exact h5
  · rw [Node.last_concat] at h5
    exact h5

theorem switchThread_inv (h : Inv s) (hs : s.switchThread = some s') :
    (∃ R, Repr s' R) ∧ Current s' ∧ s'.Highest := by
  obtain ⟨R, hR⟩ := h.repr
  rcases switchThread_cases h hs with ⟨rfl, hno⟩ | ⟨c, u, hc, huc, hu, hhigh, -, hend⟩
  · exact ⟨h.repr, h.current, fun c u _ hu => absurd hu (hno u)⟩
  · have hcm := h.current.mask c hc
    have honly : ∀ v, v ≠ c → (s.thread v).stat ≠ .running := fun v hv hst =>
      hv (Option.some.inj ((h.current.running v hst).symm.trans hc))
    rcases hend with ⟨rfl, -, hle⟩ | ⟨rfl, hrun, hle⟩ | ⟨rfl, hrun⟩
    · have hle' : (s.thread c).currentPriority ≤ (s.thread u).currentPriority :=
        hle.elim Nat.le_of_lt fun he => Nat.le_of_eq he.1
      simp only [switchTo, ne_eq, not_true_eq_false, if_false]
      exact hR.run hcm hc honly fun v hv => Nat.le_trans hle' (hhigh v hv)
    · have hle' : (s.thread u).currentPriority ≤ (s.thread c).currentPriority :=
        hle.elim Nat.le_of_lt fun he => Nat.le_of_eq he.1
      exact (hR.switchRunning hrun hcm hu huc honly hle' hhigh).1
    · refine hR.switch hu (fun v => ?_) hhigh huc
      by_cases hv : v = c
      · rw [hv]
        exact hrun
      · exact honly v hv

theorem Inv.schedule (h : Inv s) (hs : s.rtSchedule = some s') : Inv s' := by
  unfold rtSchedule at hs
  split at hs
  · obtain ⟨s1, h1, rfl⟩ := Option.map_eq_some_iff.mp hs
    obtain ⟨⟨R, hR⟩, hc, hh⟩ := switchThread_inv h h1
    exact ⟨⟨R, hR.congr rfl rfl rfl⟩, ⟨hc.running, hc.off, hc.mask⟩, h.ordered, hh⟩
  · cases hs
    exact h

/-- A started scheduler always finds a thread. -/
theorem Inv.schedule_isSome (h : Inv s) (hc : s.current ≠ none) : s.rtSchedule.isSome := by
  obtain ⟨R, hR⟩ := h.repr
  obtain ⟨c, hc⟩ := Option.ne_none_iff_exists'.mp hc
  unfold rtSchedule
  split
  · rw [Option.isSome_map]
    unfold switchThread
    split
    · rfl
    · next hg =>
      obtain ⟨u, p, hget, -⟩ := hR.highest hg
      simp only [hget, hc]
      rfl
  · rfl

/-! ## The other operations -/

theorem Inv.start (h : Inv s) (hs : s.rtSystemSchedulerStart = some s') : Inv s' := by
  obtain ⟨R, hR⟩ := h.repr
  unfold rtSystemSchedulerStart at hs
  split at hs
  · next u p hc hget =>
    have hg : s.group ≠ 0 := by
      intro hg
      unfold getHighestPriorityThread at hget
      rw [hg] at hget
      cases hget
    obtain ⟨v, _, hget', hv, -⟩ := hR.highest hg
    rw [hget'] at hget
    cases hget
    cases hs
    have hf := hR.fields u
    have hm : MaskOk (s.thread u) := hf.mask (by simp [hv]) (by simp [hv])
    have hr : Repr { s with current := some u } R := hR.congr rfl rfl rfl
    refine ⟨⟨_, hr.leave (x := { s.thread u with stat := .running, yield := false }) hm
      ⟨hf.current, hf.init, fun _ _ => hm⟩ (by simp)⟩,
      ⟨fun w hw => ?_, fun w hw => ?_, fun w hw => ?_⟩, h.ordered⟩
    · rw [setThread_thread] at hw
      split at hw
      · next hwu => rw [hwu]; rfl
      · have hn := h.current.running w hw
        rw [hc] at hn
        cases hn
    · have hwu : w = u := (Option.some.inj hw).symm
      rw [setThread_thread, if_pos hwu]
      exact ⟨by simp, by simp⟩
    · have hwu : w = u := (Option.some.inj hw).symm
      rw [setThread_thread, if_pos hwu]
      exact hm
  · cases hs

/-- A thread that `rt_thread_startup` has made ready. -/
theorem Inv.ready (h : Inv s) (hst : (s.thread t).stat = .init) :
    Inv ((s.setThread t { s.thread t with
      currentPriority := (s.thread t).initPriority
      numberMask := priorityMask (s.thread t).initPriority
      stat := .suspend
      yield := false }).rtThreadResume t) := by
  obtain ⟨R, hR⟩ := h.repr
  have hf := hR.fields t
  have hx : Fields { s.thread t with
      currentPriority := (s.thread t).initPriority
      numberMask := priorityMask (s.thread t).initPriority
      stat := .suspend
      yield := false } := ⟨hf.init, hf.init, fun _ _ => rfl⟩
  refine Inv.resume (h.setThread hx ?_ ?_ ?_ ?_ ?_) t
  · simp [hst]
  · simp
  · simp
  · simp
  · exact fun _ => ⟨by simp, rfl⟩

theorem Inv.startup (h : Inv s) (hs : s.rtThreadStartup t = some s') : Inv s' := by
  simp only [rtThreadStartup] at hs
  split at hs
  · next hst =>
    split at hs
    · cases hs
      exact h.ready hst
    · exact (h.ready hst).schedule hs
  · cases hs

/-- A closed thread that is on no list goes on the defunct list. -/
theorem Inv.toDefunct (h : Inv s) (hR : Repr s R) (ha : ∀ q, t ∉ R q)
    (hst : (s.thread t).stat = .close) : Inv (s.toDefunct t) := by
  refine ⟨⟨_, hR.link (t := t) (hR.rings.insertAfter_head ha) (by simp) (fun u hu => ?_)
    (by simp [hst])⟩, ⟨h.current.running, h.current.off, h.current.mask⟩, h.ordered⟩
  exact (List.mem_cons.mp hu).symm

/-- A thread is closed: it is on no list, until it goes on the defunct list. -/
theorem Inv.close (h : Inv s) (hm : MaskOk (s.thread t)) :
    Inv ((s.rtScheduleRemoveThread t).setClose t) ∧
      Inv (((s.rtScheduleRemoveThread t).setClose t).toDefunct t) := by
  obtain ⟨R, hR⟩ := h.repr
  have hf := hR.fields t
  obtain ⟨h1, R', hR', ha⟩ := h.leave (x := { s.thread t with
    stat := .close, yield := false, timer := false }) hm
    ⟨hf.current, hf.init, fun _ _ => hm⟩ hm (by simp) (by simp)
  exact ⟨h1, Inv.toDefunct h1 hR' ha (by rw [setClose, setThread_thread, if_pos rfl])⟩

/-- A thread that was never started is closed. -/
theorem Inv.closeInit (h : Inv s) (hst : (s.thread t).stat = .init) :
    Inv (s.setClose t) ∧ Inv ((s.setClose t).toDefunct t) := by
  obtain ⟨R, hR⟩ := h.repr
  have hf := hR.fields t
  have hx : Fields { s.thread t with stat := .close, yield := false, timer := false } :=
    ⟨hf.current, hf.init, fun _ hn => absurd rfl hn⟩
  have hc : s.current ≠ some t := fun hc => (h.current.off t hc).2 hst
  have h1 : Inv (s.setClose t) :=
    h.setThread hx (by simp [hst]) (by simp) (by simp) (by simp) fun he => absurd he hc
  have hR' : Repr (s.setClose t) R := hR.setThread hx (by simp [hst]) (by simp) (by simp)
  exact ⟨h1, h1.toDefunct hR' (hR.alone t (.inr hst)) (by
    rw [setClose, setThread_thread, if_pos rfl])⟩

/-- `rt_thread_detach` and `rt_thread_delete` of a thread that is not closed. -/
theorem Inv.close_or (h : Inv s) (hst : (s.thread t).stat ≠ .close) :
    Inv ((if (s.thread t).stat ≠ .init then s.rtScheduleRemoveThread t else s).setClose t) ∧
      Inv (((if (s.thread t).stat ≠ .init then s.rtScheduleRemoveThread t
        else s).setClose t).toDefunct t) := by
  obtain ⟨R, hR⟩ := h.repr
  split
  · next hni => exact h.close ((hR.fields t).mask hni hst)
  · next hni => exact h.closeInit (not_not.mp hni)

theorem Inv.exit (h : Inv s) (hs : s.rtThreadExit = some s') : Inv s' := by
  unfold rtThreadExit at hs
  split at hs
  · cases hs
  · next t hc =>
    obtain ⟨h1, h2⟩ := h.close (h.current.mask t hc)
    refine Inv.schedule ?_ hs
    split
    · exact h1
    · exact h2

theorem Inv.detach (h : Inv s) (hs : s.rtThreadDetach t = some s') : Inv s' := by
  simp only [rtThreadDetach] at hs
  split at hs
  · cases hs
  · split at hs
    · cases hs
      exact h
    · next hst =>
      obtain ⟨h1, h2⟩ := h.close_or hst
      cases hs
      split
      · exact h1
      · exact h2

theorem Inv.delete (h : Inv s) (hs : s.rtThreadDelete t = some s') : Inv s' := by
  simp only [rtThreadDelete] at hs
  split at hs
  · cases hs
  · split at hs
    · cases hs
      exact h
    · next hst =>
      cases hs
      exact (h.close_or hst).2

theorem Inv.sleep (h : Inv s) (hs : s.rtThreadSleep = some s') : Inv s' := by
  unfold rtThreadSleep at hs
  split at hs
  · cases hs
  · next t _ =>
    obtain ⟨s1, h1, h2⟩ := Option.bind_eq_some_iff.mp hs
    exact ((h.suspend h1).setTimer t true).schedule h2

theorem Inv.expire (h : Inv s) (hs : s.expire t = some s') : Inv s' := by
  unfold RtSched.expire at hs
  split at hs
  · unfold rtThreadTimeout at hs
    split at hs
    · next hst => exact ((h.setTimer t false).wake hst).schedule hs
    · cases hs
  · cases hs

theorem Inv.tick (h : Inv s) {expired : List Nat} (hs : s.rtTickIncrease expired = some s') :
    Inv s' := by
  have hfold : ∀ (l : List Nat) (s : RtSched), Inv s → l.foldlM RtSched.expire s = some s' →
      Inv s' := by
    intro l
    induction l with
    | nil =>
      intro s h hs
      cases hs
      exact h
    | cons t l ih =>
      intro s h hs
      obtain ⟨s1, h1, h2⟩ := Option.bind_eq_some_iff.mp hs
      exact ih s1 (h.expire h1) h2
  simp only [rtTickIncrease] at hs
  split at hs
  · cases hs
  · next t _ =>
    obtain ⟨s1, h1, h2⟩ := Option.bind_eq_some_iff.mp hs
    refine hfold expired s1 ?_ h2
    have hset : Inv (s.setThread t { s.thread t with
        remainingTick := ((s.thread t).remainingTick + (2 ^ 32 - 1)) % 2 ^ 32 }) :=
      h.setFields rfl rfl rfl rfl
    split at h1
    · refine Inv.schedule ?_ h1
      exact hset.setFields rfl rfl rfl rfl
    · cases h1
      exact hset

/-- `rt_enter_critical` and `rt_exit_critical` change the nest only. -/
theorem Inv.setNest (h : Inv s) (n : Int) : Inv { s with lockNest := n } := by
  obtain ⟨R, hR⟩ := h.repr
  exact ⟨⟨R, hR.congr rfl rfl rfl⟩, ⟨h.current.running, h.current.off, h.current.mask⟩, h.ordered⟩

theorem Inv.exitCritical (h : Inv s) (hs : s.rtExitCritical = some s') : Inv s' := by
  simp only [rtExitCritical] at hs
  split at hs
  · split at hs
    · cases hs
      exact h.setNest 0
    · exact (h.setNest 0).schedule hs
  · cases hs
    exact h.setNest _

/-- The loop of `rt_ipc_list_suspend` finds the head or a thread of the list. -/
theorem Repr.findLower (h : Repr s R) {q : Head} {r : Node} {priority : Nat} (k : Nat) (n : Node)
    (hn : n = .head q ∨ ∃ l u m, R q = l ++ u :: m ∧ n = .item u)
    (hs : s.findLower (.head q) priority k n = some r) :
    r = .head q ∨ ∃ l u m, R q = l ++ u :: m ∧ r = .item u := by
  induction k generalizing n with
  | zero => cases hs
  | succ k ih =>
    unfold RtSched.findLower at hs
    split at hs
    · cases hs
      exact .inl rfl
    · next hne =>
      rcases hn with rfl | ⟨l, u, m, hl, rfl⟩
      · exact absurd rfl hne
      · simp only at hs
        split at hs
        · cases hs
          exact .inr ⟨l, u, m, hl, rfl⟩
        · refine ih _ ?_ hs
          rcases h.rings.next_item hl with ⟨hx, -⟩ | ⟨v, m', rfl, hx⟩
          · exact .inl hx
          · exact .inr ⟨l ++ [u], v, m', by rw [hl]; simp, hx⟩

theorem Inv.ipcSuspend (h : Inv s) {q flag rounds : Nat}
    (hs : s.rtIpcListSuspend q flag rounds = some s') : Inv s' := by
  unfold rtIpcListSuspend at hs
  split at hs
  · cases hs
  · next t hc =>
    split at hs
    · next hst =>
      obtain ⟨s1, h1, h2⟩ := Option.bind_eq_some_iff.mp hs
      obtain ⟨R₀, hR₀⟩ := h.repr
      have hf := hR₀.fields t
      have hm := h.current.mask t hc
      obtain ⟨hI, R, hR, ha⟩ := h.leave (x := { s.thread t with stat := .suspend, timer := false })
        hm ⟨hf.current, hf.init, fun _ _ => hm⟩ hm (by simp) (by simp)
      have he : s1 = (s.rtScheduleRemoveThread t).setThread t
          { s.thread t with stat := .suspend, timer := false } := by
        simp only [rtThreadSuspend, hst, hc] at h1
        simpa using h1.symm
      subst he
      -- the thread goes before a node of the list, or before its head
      have hlink : ∀ (L : Links Node) (l : List Nat), Rings L (Function.update R (.wait q) l) →
          (∀ u ∈ l, u ∈ R (.wait q) ∨ u = t) → Inv { (s.rtScheduleRemoveThread t).setThread t
            { s.thread t with stat := .suspend, timer := false } with links := L } := by
        intro L l hL hl
        exact ⟨⟨_, hR.link hL (by simp) hl (by simp)⟩,
          ⟨hI.current.running, hI.current.off, hI.current.mask⟩, hI.ordered⟩
      have hhead := hlink _ _ (hR.rings.insertBefore_head (q := .wait q) ha)
        fun u hu => by simpa using hu
      split at h2
      · cases h2
        exact hhead
      · split at h2
        · obtain ⟨r, hr, rfl⟩ := Option.map_eq_some_iff.mp h2
          have hfirst : ∀ n, n = Links.next ((s.rtScheduleRemoveThread t).setThread t
              { s.thread t with stat := .suspend, timer := false }).links (.head (.wait q)) →
              n = .head (.wait q) ∨ ∃ l u m, R (.wait q) = l ++ u :: m ∧ n = .item u := by
            rintro n rfl
            cases hl : R (.wait q) with
            | nil =>
              have hring := hR.rings.ring (.wait q)
              rw [hl] at hring
              exact .inl (isRing_nil.mp hring).1
            | cons u m => exact .inr ⟨[], u, m, rfl, hR.rings.next_head hl⟩
          rcases hR.findLower rounds _ (hfirst _ rfl) hr with rfl | ⟨l, u, m, hl, rfl⟩
          · exact hhead
          · refine hlink _ _ (hR.rings.insertBefore_item ha hl) fun v hv => ?_
            rw [hl]
            grind
        · cases h2
          exact hI
    · cases hs

/-- The first thread of the defunct list is taken off it. -/
theorem Inv.unlinkDefunct (h : Inv s) (ht : s.links.next (.head .defunct) = .item t) :
    Inv (s.unlink t) := by
  obtain ⟨R, hR⟩ := h.repr
  have hst : (s.thread t).stat ≠ .ready := by
    intro hst
    have hmem := (hR.ready t _).mpr ⟨hst, rfl⟩
    cases hl : R .defunct with
    | nil =>
      have hring := hR.rings.ring .defunct
      rw [hl] at hring
      rw [(isRing_nil.mp hring).1] at ht
      cases ht
    | cons v l =>
      rw [hR.rings.next_head hl] at ht
      cases ht
      cases hR.rings.one _ _ t hmem (by rw [hl]; exact List.mem_cons_self)
  exact ⟨⟨_, hR.unlink hst⟩, ⟨h.current.running, h.current.off, h.current.mask⟩, h.ordered⟩

theorem Inv.idle (h : Inv s) (hs : s.rtThreadIdleExcute = some s') : Inv s' := by
  unfold rtThreadIdleExcute at hs
  split at hs
  · next t ht => exact ((h.unlinkDefunct ht).setNest _).exitCritical hs
  · cases hs
    exact h

/-! ## The result -/

/-- The step lemma: priorities are given below `RT_THREAD_PRIORITY_MAX`. -/
theorem Inv.step {act : SchedAct} (h : Inv s) (hp : ∀ t p, act = .changePriority t p → p < 32)
    (hs : schedStep s act = some s') : Inv s' := by
  cases act with
  | start => exact h.start hs
  | startup t => exact h.startup hs
  | suspend t => exact h.suspend hs
  | resume t =>
    cases hs
    exact h.resume t
  | sleep => exact h.sleep hs
  | timeout t => exact h.expire hs
  | changePriority t p =>
    cases hs
    exact h.changePriority t (hp t p rfl)
  | exit => exact h.exit hs
  | detach t => exact h.detach hs
  | delete t => exact h.delete hs
  | tick expired => exact h.tick hs
  | schedule => exact h.schedule hs
  | enterCritical =>
    cases hs
    exact h.setNest _
  | exitCritical => exact h.exitCritical hs
  | ipcSuspend q flag rounds => exact h.ipcSuspend hs
  | idle => exact h.idle hs

theorem schedInit_inv {priority tick : Nat → Nat} {isSystem cleanup : Nat → Bool}
    (hp : ∀ t, priority t < 32) : Inv (schedInit priority tick isSystem cleanup) := by
  have hring : Rings (schedInit priority tick isSystem cleanup).links fun _ => [] :=
    ⟨fun _ => isRing_nil.mpr ⟨rfl, rfl⟩, fun _ _ => isRing_nil.mpr ⟨rfl, rfl⟩,
      fun _ _ _ h => absurd h List.not_mem_nil⟩
  refine ⟨⟨fun _ => [], hring, fun p => ?_, fun t p => ?_, fun t => ?_, fun _ _ _ =>
    List.not_mem_nil⟩, ⟨?_, ?_, ?_⟩, trivial⟩
  · simp [schedInit]
  · simp [schedInit, rtThreadInit]
  · exact ⟨hp t, hp t, fun hn => absurd rfl hn⟩
  · rintro t ⟨⟩
  · rintro t ⟨⟩
  · rintro t ⟨⟩

/-- The invariant of every run. -/
theorem reachable_inv {priority tick : Nat → Nat} {isSystem cleanup : Nat → Bool}
    {acts : List SchedAct} (hp : ∀ t, priority t < 32)
    (ha : ∀ t p, SchedAct.changePriority t p ∈ acts → p < 32)
    (hx : exec schedStep (schedInit priority tick isSystem cleanup) acts = some s) : Inv s := by
  have hc : Along schedStep (fun _ act => ∀ t p, act = .changePriority t p → p < 32)
      (schedInit priority tick isSystem cleanup) acts :=
    along_of_forall fun _ act hm t p he => ha t p (he ▸ hm)
  exact hc.inv (fun _ _ _ h hc hs => h.step hc hs) hx (schedInit_inv hp)

/-- The property: `R q` are the threads on the list with the head `q`. -/
structure ReadyQueue (s : RtSched) (R : Head → List Nat) : Prop where
  /-- The pointers lead through these lists. A thread is on one of them at most, and once. -/
  rings : Rings s.links R
  nodup : ∀ q, (R q).Nodup
  bit : ∀ p, s.group.getLsbD p = true ↔ R (.ready p) ≠ []
  ready : ∀ t p, t ∈ R (.ready p) ↔
    (s.thread t).stat = .ready ∧ (s.thread t).currentPriority = p
  small : ∀ t, (s.thread t).currentPriority < 32

/-- **The bitmap, the lists and the states agree.** In every run, the bit `p` of the group is set
iff the list of the priority `p` has a thread; a thread is on a ready list iff it is ready, then on
that of its priority, once; every `rt_schedule` with the scheduler unlocked left no ready thread
above the running one; and once the scheduler is started, `rt_schedule` finds a thread. -/
theorem ready_queue (priority tick : Nat → Nat) (isSystem cleanup : Nat → Bool)
    (hp : ∀ t, priority t < 32) (acts : List SchedAct)
    (ha : ∀ t p, SchedAct.changePriority t p ∈ acts → p < 32) (s : RtSched)
    (hx : exec schedStep (schedInit priority tick isSystem cleanup) acts = some s) :
    (∃ R, ReadyQueue s R) ∧ s.ordered ∧ (s.current ≠ none → (schedStep s .schedule).isSome) := by
  have h : Inv s := reachable_inv hp ha hx
  obtain ⟨R, hR⟩ := h.repr
  exact ⟨⟨R, hR.rings, hR.rings.nodup, hR.bit, hR.ready, fun t => (hR.fields t).current⟩,
    h.ordered, h.schedule_isSome⟩

/-- The threads 0 and 1 wait on one list. Thread 2 resumes 0, which closes 1 and puts 2 above
itself; 2 runs when the time slice of 0 ends, and again when its own timer expires. -/
def threeThreads : List SchedAct :=
  [.startup 1, .startup 0, .startup 2, .start, .ipcSuspend 3 1 2, .schedule, .ipcSuspend 3 1 2,
    .schedule, .resume 0, .schedule, .delete 1, .changePriority 2 3, .tick [], .tick [], .sleep,
    .tick [2], .changePriority 2 30, .schedule, .exit]

theorem ready_queue_three : ∃ s, exec schedStep (schedInit (fun t => 5 * (t % 3 + 1)) (fun _ => 2)
    (fun _ => false) fun _ => false) threeThreads = some s ∧ (∃ R, ReadyQueue s R) ∧ s.ordered ∧
      (s.current, (List.range 4).map fun t => (s.thread t).stat) =
        (some 2, [.close, .close, .running, .init]) := by
  have hrun : (exec schedStep (schedInit (fun t => 5 * (t % 3 + 1)) (fun _ => 2) (fun _ => false)
      fun _ => false) threeThreads).map
        (fun s => (s.current, (List.range 4).map fun t => (s.thread t).stat)) =
      some (some 2, [.close, .close, .running, .init]) := by decide +kernel
  obtain ⟨s, hx, hs⟩ := Option.map_eq_some_iff.mp hrun
  have h := ready_queue (fun t => 5 * (t % 3 + 1)) (fun _ => 2) (fun _ => false) (fun _ => false)
    (fun t => by show 5 * (t % 3 + 1) < 32; omega) threeThreads
    (fun t p hm => by simp [threeThreads] at hm; omega) s hx
  exact ⟨s, hx, h.1, h.2.1, hs⟩

end Tudu.Sched
