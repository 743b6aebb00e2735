import Mathlib.Data.Fintype.Basic
import TuduOS.Drivers.RingBlk
import TuduOS.Lib.Lts

/-!
# Asynchronous log output (`ulog.c`)

Any number of threads in `do_output`, and the output thread. A call of the ring block buffer or of
the notice's semaphore is one step, with interrupts disabled. Who submits locks `output_locker`
around `do_output`; here submitters run freely.

* A block is its index. Its frame is beside it, the blocks in use are disjoint (`RingBlk`).
* The value of the semaphore has 16 bits, and `rt_sem_release` does not check it.
* A failed `RT_ASSERT` has no next state.

`Stranded s` is what should not be, `Kept s act` what a step is not to do.
-/

namespace Tudu.Ulog

open Lts RingBlk

/-- `struct ulog_frame`, without the magic word, which every frame has. -/
structure Frame where
  isRaw : Bool
  level : Nat
  logLen : Nat
  tag : Option String
  log : List UInt8
  deriving DecidableEq

inductive Submit where
  | out
  /-- In `do_output` with its block, before `rt_rbb_blk_put`. -/
  | filling (block : Nat) (frame : Frame)
  /-- Between `rt_rbb_blk_put` and `rt_sem_release`. -/
  | sending
  deriving DecidableEq

inductive Output where
  /-- In the loop of `ulog_async_output`. -/
  | draining
  /-- It has a block. -/
  | holding (block : Nat)
  /-- The loop is over. -/
  | drained
  /-- Between `rt_sem_control` and `rt_sem_take`. -/
  | reset
  /-- Suspended in `rt_sem_take`. -/
  | waiting
  deriving DecidableEq

structure UlogSys (T : Type) where
  asyncRbb : RtRbb
  /-- The frame in a block. -/
  frames : Nat → Option Frame
  /-- The value of `async_notice`. -/
  notice : Nat
  output : Output
  submit : T → Submit
  /-- What the backends got. -/
  logs : List Frame
  /-- The frames of the blocks that were put. -/
  sent : List Frame

variable {T : Type} [DecidableEq T]

namespace UlogSys

def setSubmit (s : UlogSys T) (t : T) (p : Submit) : UlogSys T :=
  { s with submit := Function.update s.submit t p }

/-- `RT_ALIGN(sizeof(struct ulog_frame) + log_len, RT_ALIGN_SIZE)` -/
def frameSize (logLen : Nat) : Nat := (16 + logLen + 3) / 4 * 4

/-- `do_output` up to its block. Without one it prints a warning and returns. -/
def blkAlloc (s : UlogSys T) (t : T) (level : Nat) (tag : Option String) (isRaw : Bool)
    (log : List UInt8) : Option (UlogSys T) :=
  match s.asyncRbb.rtRbbBlkAlloc (frameSize log.length) with
  | none => none
  | some (rbb, none) => some { s with asyncRbb := rbb }
  | some (rbb, some logBlk) =>
    some ({ s with asyncRbb := rbb }.setSubmit t
      (.filling logBlk ⟨isRaw, level, log.length % 8388608, tag, log⟩))

/-- The log frame is packaged, and the block put. -/
def blkPut (s : UlogSys T) (t : T) (logBlk : Nat) (frame : Frame) : Option (UlogSys T) :=
  match s.asyncRbb.rtRbbBlkPut logBlk with
  | none => none
  | some rbb =>
    some ({ s with
      asyncRbb := rbb
      frames := Function.update s.frames logBlk (some frame)
      sent := frame :: s.sent }.setSubmit t .sending)

/-- `rt_sem_release(&ulog.async_notice)` -/
def semRelease (s : UlogSys T) (t : T) : UlogSys T :=
  if s.output = .waiting then { s with output := .draining }.setSubmit t .out
  else { s with notice := (s.notice + 1) % 65536 }.setSubmit t .out

/-- `rt_rbb_blk_get` in `ulog_async_output` -/
def blkGet (s : UlogSys T) : UlogSys T :=
  match s.asyncRbb.rtRbbBlkGet with
  | (rbb, none) => { s with asyncRbb := rbb, output := .drained }
  | (rbb, some logBlk) => { s with asyncRbb := rbb, output := .holding logBlk }

/-- `ulog_output_to_all_backend`, and `rt_rbb_blk_free`. -/
def blkFree (s : UlogSys T) (logBlk : Nat) : Option (UlogSys T) :=
  match s.asyncRbb.rtRbbBlkFree logBlk with
  | none => none
  | some rbb =>
    some { s with
      asyncRbb := rbb
      output := .draining
      logs := s.logs ++ (s.frames logBlk).toList }

/-- `rt_sem_control(&ulog.async_notice, RT_IPC_CMD_RESET, RT_NULL)`; nobody waits. -/
def semReset (s : UlogSys T) : UlogSys T := { s with notice := 0, output := .reset }

/-- `rt_sem_take(&ulog.async_notice, RT_WAITING_FOREVER)` -/
def semTake (s : UlogSys T) : UlogSys T :=
  if 0 < s.notice then { s with notice := s.notice - 1, output := .draining }
  else { s with output := .waiting }

end UlogSys

inductive LogAct (T : Type) where
  | alloc (t : T) (level : Nat) (tag : Option String) (isRaw : Bool) (log : List UInt8)
  | put (t : T)
  | release (t : T)
  | get
  | free
  | reset
  | take

def ulogStep (s : UlogSys T) : LogAct T → Option (UlogSys T)
  | .alloc t level tag isRaw log =>
    if s.submit t = .out then s.blkAlloc t level tag isRaw log else none
  | .put t =>
    match s.submit t with
    | .filling logBlk frame => s.blkPut t logBlk frame
    | _ => none
  | .release t => if s.submit t = .sending then some (s.semRelease t) else none
  | .get => if s.output = .draining then some s.blkGet else none
  | .free =>
    match s.output with
    | .holding logBlk => s.blkFree logBlk
    | _ => none
  | .reset => if s.output = .drained then some s.semReset else none
  | .take => if s.output = .reset then some s.semTake else none

/-- After `ulog_init`; the output thread has started. -/
def ulogInit (T : Type) (buf bufSize : Nat) (blockSet : Nat → RtRbbBlk) (blkMaxNum : Nat) :
    UlogSys T :=
  ⟨rtRbbInit buf bufSize blockSet blkMaxNum, fun _ => none, 0, .draining, fun _ => .out, [], []⟩

/-! ## The property and the condition -/

/-- The buffer holds a block that was put. -/
def HasPut (s : UlogSys T) : Prop :=
  ∃ i ∈ s.asyncRbb.blkList, (s.asyncRbb.blkSet i).status = .put

/-- A submitter is between its put and its release. -/
def Sending (s : UlogSys T) : Prop := ∃ t, s.submit t = .sending

/-- A block is there to be output, and nothing is about to wake the output thread. -/
def Stranded (s : UlogSys T) : Prop := s.output = .waiting ∧ HasPut s ∧ ¬ Sending s

def LogAct.IsRelease : LogAct T → Bool
  | .release _ => true
  | _ => false

def LogAct.IsReset : LogAct T → Bool
  | .reset => true
  | _ => false

/-- What a step is not to do.
* The reset does not come when a block was put since the loop was over, unless a submitter is still
  to send its notice.
* Between the reset and the wait, no notice makes the value of the semaphore wrap. -/
def Kept (s : UlogSys T) (act : LogAct T) : Prop :=
  (act.IsReset = true → HasPut s → Sending s) ∧
    (act.IsRelease = true → s.output = .reset → s.notice < 65535)

instance (s : UlogSys T) : Decidable (HasPut s) :=
  inferInstanceAs (Decidable (∃ i ∈ s.asyncRbb.blkList, _))

instance [Fintype T] (s : UlogSys T) : Decidable (Sending s) :=
  inferInstanceAs (Decidable (∃ t, s.submit t = .sending))

instance [Fintype T] (s : UlogSys T) : Decidable (Stranded s) :=
  inferInstanceAs (Decidable (_ ∧ _ ∧ ¬ _))

instance [Fintype T] (s : UlogSys T) (act : LogAct T) : Decidable (Kept s act) :=
  inferInstanceAs (Decidable ((_ → _ → _) ∧ (_ → _ → _)))

/-! ## The invariant -/

/-- From the reset on, a block that was put has a notice, or its submitter is to send one. -/
structure UlogInv (s : UlogSys T) : Prop where
  reset : s.output = .reset → HasPut s → ¬ Sending s → 0 < s.notice
  waiting : s.output = .waiting → HasPut s → Sending s

variable {s s' : UlogSys T} {act : LogAct T} {rbb rbb' : RtRbb} {t : T} {i n : Nat}
  {r : Option Nat}

/-- What a step does. -/
theorem ulogStep_cases (hs : ulogStep s act = some s') :
    match act with
    | .alloc t level tag isRaw log => s.submit t = .out ∧ s.blkAlloc t level tag isRaw log = some s'
    | .put t => ∃ i frame, s.submit t = .filling i frame ∧ s.blkPut t i frame = some s'
    | .release t => s' = s.semRelease t
    | .get => s.output = .draining ∧ s' = s.blkGet
    | .free => ∃ i, s.output = .holding i ∧ s.blkFree i = some s'
    | .reset => s.output = .drained ∧ s' = s.semReset
    | .take => s.output = .reset ∧ s' = s.semTake := by
  cases act with
  | put t =>
    simp only [ulogStep] at hs
    split at hs
    · next ht => exact ⟨_, _, ht, hs⟩
    · cases hs
  | free =>
    simp only [ulogStep] at hs
    split at hs
    · next ho => exact ⟨_, ho, hs⟩
    · cases hs
  | _ =>
    simp only [ulogStep, Option.ite_none_right_eq_some, Option.some.injEq] at hs
    obtain ⟨hp, hs⟩ := hs
    first | exact ⟨hp, hs⟩ | exact ⟨hp, hs.symm⟩ | exact hs.symm

omit [DecidableEq T] in
/-- The output thread is neither before its wait nor in it. -/
theorem UlogInv.awake (hr : s.output ≠ .reset) (hw : s.output ≠ .waiting) : UlogInv s :=
  ⟨fun h => absurd h hr, fun h => absurd h hw⟩

omit [DecidableEq T] in
theorem ulogInit_inv {buf bufSize blkMaxNum : Nat} {blockSet : Nat → RtRbbBlk} :
    UlogInv (ulogInit T buf bufSize blockSet blkMaxNum) :=
  .awake (fun h => by cases h) fun h => by cases h

/-- What an allocation does: nothing, or an unused block of the set becomes a new one. -/
theorem alloc_out (h : rbb.rtRbbBlkAlloc n = some (rbb', r)) :
    r = none ∧ rbb' = rbb ∨ ∃ k a, r = some k ∧ k < rbb.blkMaxNum ∧
      (rbb.blkSet k).status = .unused ∧ rbb' = rbb.initBlk k a n := by
  unfold RtRbb.rtRbbBlkAlloc at h
  split at h
  · split at h
    · cases h
      exact .inl ⟨rfl, rfl⟩
    · next k hk =>
      obtain ⟨hlt, hu⟩ := findEmpty_some hk
      have hnew : ∀ a, some (rbb.initBlk k a n, some k) = some (rbb', r) →
          ∃ k a, r = some k ∧ k < rbb.blkMaxNum ∧ (rbb.blkSet k).status = .unused ∧
            rbb' = rbb.initBlk k a n := by
        intro a he
        cases he
        exact ⟨k, a, rfl, hlt, hu, rfl⟩
      grind
  · cases h

/-- A new block is not put yet. -/
theorem hasPut_initBlk {k a : Nat}
    (h : ∃ i ∈ (rbb.initBlk k a n).blkList, ((rbb.initBlk k a n).blkSet i).status = .put) :
    ∃ i ∈ rbb.blkList, (rbb.blkSet i).status = .put := by
  obtain ⟨i, hi, hput⟩ := h
  rw [initBlk_blkSet] at hput
  split at hput
  · cases hput
  · next hne =>
    refine ⟨i, (List.mem_append.mp hi).resolve_right ?_, hput⟩
    intro hk
    exact hne (List.mem_singleton.mp hk)

/-- What `do_output` does up to its block. -/
theorem blkAlloc_out {level : Nat} {tag : Option String} {isRaw : Bool} {log : List UInt8}
    (h : s.blkAlloc t level tag isRaw log = some s') :
    s' = s ∨ ∃ k a n frame, (s.asyncRbb.blkSet k).status = .unused ∧
      s' = { s with asyncRbb := s.asyncRbb.initBlk k a n }.setSubmit t (.filling k frame) := by
  unfold UlogSys.blkAlloc at h
  split at h
  · cases h
  · next ha =>
    obtain rfl := Option.some.inj h
    obtain ⟨-, rfl⟩ | ⟨k, a, hk, -⟩ := alloc_out ha
    · exact .inl rfl
    · cases hk
  · next logBlk ha =>
    obtain rfl := Option.some.inj h
    obtain ⟨hk, -⟩ | ⟨k, a, hk, -, hu, rfl⟩ := alloc_out ha
    · cases hk
    · rw [Option.some.inj hk]
      exact .inr ⟨k, a, _, _, hu, rfl⟩

/-- What a submitter does before its put leaves the notice alone. -/
theorem blkAlloc_cases {level : Nat} {tag : Option String} {isRaw : Bool} {log : List UInt8}
    (h : s.blkAlloc t level tag isRaw log = some s') (ht : s.submit t = .out) :
    s'.output = s.output ∧ s'.notice = s.notice ∧ (HasPut s' → HasPut s) ∧
      (Sending s → Sending s') := by
  obtain rfl | ⟨k, a, n, frame, -, rfl⟩ := blkAlloc_out h
  · exact ⟨rfl, rfl, id, id⟩
  · refine ⟨rfl, rfl, hasPut_initBlk, ?_⟩
    rintro ⟨u, hu⟩
    refine ⟨u, ?_⟩
    have hne : u ≠ t := by
      rintro rfl
      rw [ht] at hu
      cases hu
    show Function.update s.submit t _ u = .sending
    rw [Function.update_of_ne hne]
    exact hu

theorem UlogInv.alloc {level : Nat} {tag : Option String} {isRaw : Bool} {log : List UInt8}
    (h : UlogInv s) (hs : s.blkAlloc t level tag isRaw log = some s') (ht : s.submit t = .out) :
    UlogInv s' := by
  obtain ⟨ho, hn, hput, hsend⟩ := blkAlloc_cases hs ht
  refine ⟨fun hr hp hns => ?_, fun hw hp => ?_⟩
  · rw [hn]
    exact h.reset (ho ▸ hr) (hput hp) fun hx => hns (hsend hx)
  · exact hsend (h.waiting (ho ▸ hw) (hput hp))

/-- The submitter is between its put and its release. -/
theorem sending_setSubmit : Sending (s.setSubmit t .sending) :=
  ⟨t, Function.update_self t _ s.submit⟩

theorem UlogInv.put {frame : Frame} (hs : s.blkPut t i frame = some s') : UlogInv s' := by
  unfold UlogSys.blkPut at hs
  split at hs
  · cases hs
  · cases hs
    exact ⟨fun _ _ hns => absurd sending_setSubmit hns, fun _ _ => sending_setSubmit⟩

/-- A notice wakes the output thread, or counts. -/
theorem UlogInv.release (hc : s.output = .reset → s.notice < 65535) : UlogInv (s.semRelease t) := by
  unfold UlogSys.semRelease
  split
  · exact .awake (fun h => by cases h) fun h => by cases h
  · next hne =>
    refine ⟨fun hr _ _ => ?_, fun hw => absurd hw hne⟩
    have hlt := hc hr
    show 0 < (s.notice + 1) % 65536
    omega

omit [DecidableEq T] in
theorem UlogInv.get : UlogInv s.blkGet := by
  unfold UlogSys.blkGet
  split
  · exact .awake (fun h => by cases h) fun h => by cases h
  · exact .awake (fun h => by cases h) fun h => by cases h

omit [DecidableEq T] in
theorem UlogInv.free (hs : s.blkFree i = some s') : UlogInv s' := by
  unfold UlogSys.blkFree at hs
  split at hs
  · cases hs
  · cases hs
    exact .awake (fun h => by cases h) fun h => by cases h

omit [DecidableEq T] in
/-- The value counts the notices since the reset. -/
theorem UlogInv.take (h : UlogInv s) (hr : s.output = .reset) : UlogInv s.semTake := by
  unfold UlogSys.semTake
  split
  · exact .awake (fun h => by cases h) fun h => by cases h
  · next hzero =>
    refine ⟨fun hr => (by cases hr), fun _ hp => ?_⟩
    exact Classical.byContradiction fun hns => hzero (h.reset hr hp hns)

theorem UlogInv.step (h : UlogInv s) (hc : Kept s act) (hs : ulogStep s act = some s') :
    UlogInv s' := by
  cases act with
  | alloc t level tag isRaw log =>
    have hx := ulogStep_cases hs
    exact h.alloc hx.2 hx.1
  | put t =>
    obtain ⟨_, _, -, hput⟩ := ulogStep_cases hs
    exact .put hput
  | release t =>
    obtain rfl : s' = s.semRelease t := ulogStep_cases hs
    exact .release (hc.2 rfl)
  | get =>
    obtain ⟨-, rfl⟩ := ulogStep_cases hs
    exact .get
  | free =>
    obtain ⟨_, -, hfree⟩ := ulogStep_cases hs
    exact .free hfree
  | reset =>
    obtain ⟨-, rfl⟩ := ulogStep_cases hs
    exact ⟨fun _ hp hns => absurd (hc.1 rfl hp) hns, fun hw => (by cases hw)⟩
  | take =>
    obtain ⟨hr, rfl⟩ := ulogStep_cases hs
    exact h.take hr

/-- **No log is stranded.** In every run without such a step. -/
theorem log_not_stranded {buf bufSize blkMaxNum : Nat} {blockSet : Nat → RtRbbBlk}
    {acts : List (LogAct T)} {s : UlogSys T}
    (hs : exec ulogStep (ulogInit T buf bufSize blockSet blkMaxNum) acts = some s)
    (hc : Along ulogStep Kept (ulogInit T buf bufSize blockSet blkMaxNum) acts) : ¬ Stranded s := by
  have hinv : UlogInv s := hc.inv (fun _ _ _ h hk hs => UlogInv.step h hk hs) hs ulogInit_inv
  rintro ⟨hw, hp, hns⟩
  exact hns (hinv.waiting hw hp)

/-- A buffer of four blocks. -/
def fourBlocks : UlogSys Unit := ulogInit Unit 64 200 (fun _ => ⟨.unused, 0, 0⟩) 4

theorem log_not_stranded_woken : ∃ s, exec ulogStep fourBlocks
      [.get, .reset, .alloc () 7 none true [104, 105], .put (), .take, .release (), .get, .free] =
        some s ∧
    s.logs = [⟨true, 7, 2, none, [104, 105]⟩] ∧ ¬ Stranded s := by
  obtain ⟨s, hs, hl⟩ := Option.map_eq_some_iff.mp (show (exec ulogStep fourBlocks [.get, .reset,
    .alloc () 7 none true [104, 105], .put (), .take, .release (), .get, .free]).map UlogSys.logs =
    some [⟨true, 7, 2, none, [104, 105]⟩] by decide)
  exact ⟨s, hs, hl, log_not_stranded hs (by decide)⟩

/-- The block is put and its notice sent between the end of the loop and the reset. -/
theorem notice_dropped : ¬ ∀ (buf bufSize blkMaxNum : Nat) (blockSet : Nat → RtRbbBlk)
    (acts : List (LogAct Unit)) (s : UlogSys Unit),
    exec ulogStep (ulogInit Unit buf bufSize blockSet blkMaxNum) acts = some s → ¬ Stranded s := by
  intro h
  obtain ⟨s, hs, hw⟩ := Option.map_eq_some_iff.mp (show (exec ulogStep fourBlocks [.get,
    .alloc () 7 none true [104, 105], .put (), .release (), .reset, .take]).map
      (fun s => decide (Stranded s)) = some true by decide)
  exact h 64 200 4 _ _ s hs (of_decide_eq_true hw)

/-- A reset that comes at the wrong time drops the notice: if the output thread goes on, the block
is stranded. -/
theorem reset_strands (hd : s.output = .drained) (hp : HasPut s) (hns : ¬ Sending s) :
    ∃ s', exec ulogStep s [.reset, .take] = some s' ∧ Stranded s' := by
  refine ⟨s.semReset.semTake, ?_, rfl, hp, hns⟩
  simp only [exec, ulogStep, hd, if_true]
  rfl

/-! ## The blocks, and where the logs are -/

/-- Who has which block: a list of blocks, their statuses, the submitters and the output thread. -/
structure Owned (l : List Nat) (st : Nat → Status) (sub : T → Submit) (out : Output) : Prop where
  listed : ∀ i ∈ l, st i ≠ .unused
  nodup : l.Nodup
  filling : ∀ t i frame, sub t = .filling i frame → i ∈ l ∧ st i = .inited
  apart : ∀ t u i frame frame', sub t = .filling i frame → sub u = .filling i frame' → t = u
  holding : ∀ i, out = .holding i → i ∈ l ∧ st i = .get
  held : ∀ i ∈ l, st i = .get → out = .holding i

variable {l : List Nat} {st : Nat → Status} {sub : T → Submit} {out out' : Output} {frame : Frame}

namespace Owned

theorem alloc {k : Nat} (h : Owned l st sub out) (hu : st k = .unused) :
    Owned (l ++ [k]) (Function.update st k .inited) (Function.update sub t (.filling k frame))
      out := by
  obtain ⟨hlisted, hnd, hfill, hapart, hhold, hheld⟩ := h
  have hnew : k ∉ l := fun hm => hlisted k hm hu
  refine ⟨?_, ?_, ?_, ?_, ?_, ?_⟩
  · grind [Function.update_apply]
  · exact List.nodup_append.mpr ⟨hnd, List.nodup_singleton k, by grind⟩
  · grind [Function.update_apply]
  · grind [Function.update_apply]
  · grind [Function.update_apply]
  · grind [Function.update_apply]

theorem put (h : Owned l st sub out) (ht : sub t = .filling i frame) :
    Owned l (Function.update st i .put) (Function.update sub t .sending) out := by
  obtain ⟨hlisted, hnd, hfill, hapart, hhold, hheld⟩ := h
  obtain ⟨hi, hst⟩ := hfill t i frame ht
  refine ⟨?_, hnd, ?_, ?_, ?_, ?_⟩
  · grind [Function.update_apply]
  · grind [Function.update_apply]
  · grind [Function.update_apply]
  · grind [Function.update_apply]
  · grind [Function.update_apply]

/-- A notice, which may wake the output thread, and any step without a block. -/
theorem release (h : Owned l st sub out) (ho : ∀ i, out' = .holding i ↔ out = .holding i) :
    Owned l st (Function.update sub t .out) out' := by
  obtain ⟨hlisted, hnd, hfill, hapart, hhold, hheld⟩ := h
  refine ⟨hlisted, hnd, ?_, ?_, ?_, ?_⟩
  · grind [Function.update_apply]
  · grind [Function.update_apply]
  · grind
  · grind

omit [DecidableEq T] in
theorem idle (h : Owned l st sub out) (ho : ∀ i, out' = .holding i ↔ out = .holding i) :
    Owned l st sub out' := by
  obtain ⟨hlisted, hnd, hfill, hapart, hhold, hheld⟩ := h
  exact ⟨hlisted, hnd, hfill, hapart, fun i hi => hhold i ((ho i).mp hi),
    fun i hi hg => (ho i).mpr (hheld i hi hg)⟩

omit [DecidableEq T] in
theorem get (h : Owned l st sub out) (ho : ∀ i, out ≠ .holding i) (hi : i ∈ l)
    (hput : st i = .put) : Owned l (Function.update st i .get) sub (.holding i) := by
  obtain ⟨hlisted, hnd, hfill, hapart, hhold, hheld⟩ := h
  refine ⟨?_, hnd, ?_, hapart, ?_, ?_⟩
  · grind [Function.update_apply]
  · grind [Function.update_apply]
  · grind [Function.update_apply]
  · grind [Function.update_apply]

omit [DecidableEq T] in
theorem free (h : Owned l st sub (.holding i)) (ho : ∀ i, out' ≠ .holding i) :
    Owned (l.erase i) (Function.update st i .unused) sub out' := by
  obtain ⟨hlisted, hnd, hfill, hapart, hhold, hheld⟩ := h
  obtain ⟨hi, hget⟩ := hhold i rfl
  have hmem : ∀ j, j ∈ l.erase i ↔ j ≠ i ∧ j ∈ l := fun j => hnd.mem_erase_iff
  refine ⟨?_, hnd.erase i, ?_, hapart, ?_, ?_⟩
  · grind [Function.update_apply]
  · grind [Function.update_apply]
  · grind
  · grind [Function.update_apply]

end Owned

/-- The frame of a block that was put and is not freed. -/
def content (st : Nat → Status) (frames : Nat → Option Frame) (i : Nat) : Option Frame :=
  if st i = .put ∨ st i = .get then frames i else none

/-- A block leaves the list, with its contents. -/
theorem filterMap_erase {f g : Nat → Option Frame} (hnd : l.Nodup) (hi : i ∈ l)
    (hfg : ∀ j, j ≠ i → g j = f j) :
    (l.filterMap f).Perm ((f i).toList ++ (l.erase i).filterMap g) := by
  have hsame : (l.erase i).filterMap g = (l.erase i).filterMap f :=
    List.filterMap_congr fun j hj => hfg j fun he => hnd.not_mem_erase (he ▸ hj)
  have h1 := (List.perm_cons_erase hi).filterMap f
  rw [hsame]
  cases hx : f i with
  | none =>
    rw [List.filterMap_cons_none hx] at h1
    exact h1
  | some x =>
    rw [List.filterMap_cons_some hx] at h1
    exact h1

/-- A block of the list gets contents. -/
theorem filterMap_fill {f g : Nat → Option Frame} {x : Frame} (hnd : l.Nodup) (hi : i ∈ l)
    (hf : f i = none) (hg : g i = some x) (hfg : ∀ j, j ≠ i → g j = f j) :
    (l.filterMap g).Perm (x :: l.filterMap f) := by
  have h1 := filterMap_erase hnd hi fun j hj => (hfg j hj).symm
  have h2 := filterMap_erase (f := f) hnd hi fun _ _ => rfl
  rw [hg] at h1
  rw [hf] at h2
  exact h1.trans (h2.symm.cons x)

def UlogSys.status (s : UlogSys T) (i : Nat) : Status := (s.asyncRbb.blkSet i).status

/-- The logs in the buffer. -/
def pending (s : UlogSys T) : List Frame :=
  s.asyncRbb.blkList.filterMap (content s.status s.frames)

/-- Every frame that was put is in the buffer or was output, once. -/
structure LogsInv (s : UlogSys T) : Prop where
  owned : Owned s.asyncRbb.blkList s.status s.submit s.output
  perm : (s.logs ++ pending s).Perm s.sent

omit [DecidableEq T] in
theorem ulogInit_logsInv {buf bufSize blkMaxNum : Nat} {blockSet : Nat → RtRbbBlk} :
    LogsInv (ulogInit T buf bufSize blockSet blkMaxNum) where
  owned := {
    listed := fun _ hi => absurd hi List.not_mem_nil
    nodup := List.nodup_nil
    filling := fun _ _ _ h => by cases h
    apart := fun _ _ _ _ _ h => by cases h
    holding := fun _ h => by cases h
    held := fun _ hi => absurd hi List.not_mem_nil }
  perm := .refl _

theorem status_setStatus (rbb : RtRbb) (i : Nat) (x : Status) :
    (fun j => ((rbb.setStatus i x).blkSet j).status) =
      Function.update (fun j => (rbb.blkSet j).status) i x := by
  funext j
  rw [setStatus_blkSet, Function.update_apply]
  split <;> rfl

theorem status_initBlk (rbb : RtRbb) (k a n : Nat) :
    (fun j => ((rbb.initBlk k a n).blkSet j).status) =
      Function.update (fun j => (rbb.blkSet j).status) k .inited := by
  funext j
  rw [initBlk_blkSet, Function.update_apply]
  split <;> rfl

namespace LogsInv

theorem alloc {level : Nat} {tag : Option String} {isRaw : Bool} {log : List UInt8}
    (h : LogsInv s) (hs : s.blkAlloc t level tag isRaw log = some s') : LogsInv s' := by
  obtain rfl | ⟨k, a, n, frame, hu, rfl⟩ := blkAlloc_out hs
  · exact h
  have hst := status_initBlk s.asyncRbb k a n
  constructor
  · show Owned (s.asyncRbb.blkList ++ [k]) (fun j => ((s.asyncRbb.initBlk k a n).blkSet j).status)
      _ _
    rw [hst]
    exact h.owned.alloc hu
  · have hnone : content (Function.update s.status k .inited) s.frames k = none := by
      simp [content]
    have hsame : ∀ j ∈ s.asyncRbb.blkList,
        content (Function.update s.status k .inited) s.frames j = content s.status s.frames j := by
      intro j hj
      have hne : j ≠ k := fun he => h.owned.listed j hj (he ▸ hu)
      simp [content, hne]
    have hp : pending ({ s with asyncRbb := s.asyncRbb.initBlk k a n }.setSubmit t
        (.filling k frame)) = pending s := by
      show (s.asyncRbb.blkList ++ [k]).filterMap (content
        (fun j => ((s.asyncRbb.initBlk k a n).blkSet j).status) s.frames) = _
      rw [hst, List.filterMap_append]
      show _ ++ List.filterMap (content (Function.update s.status k .inited) s.frames) [k] = _
      rw [List.filterMap_cons_none hnone, List.filterMap_nil, List.append_nil]
      exact List.filterMap_congr hsame
    rw [hp]
    exact h.perm

theorem put (h : LogsInv s) (ht : s.submit t = .filling i frame)
    (hs : s.blkPut t i frame = some s') : LogsInv s' := by
  obtain ⟨hi, hst⟩ := h.owned.filling t i frame ht
  unfold UlogSys.blkPut RtRbb.rtRbbBlkPut at hs
  rw [if_pos (show (s.asyncRbb.blkSet i).status = .inited from hst)] at hs
  obtain rfl := Option.some.inj hs
  have hset := status_setStatus s.asyncRbb i .put
  constructor
  · show Owned s.asyncRbb.blkList (fun j => ((s.asyncRbb.setStatus i .put).blkSet j).status) _ _
    rw [hset]
    exact h.owned.put ht
  · have hfill : (s.asyncRbb.blkList.filterMap (content (Function.update s.status i .put)
        (Function.update s.frames i (some frame)))).Perm (frame :: pending s) := by
      refine filterMap_fill h.owned.nodup hi ?_ ?_ ?_
      · simp [content, hst]
      · simp [content]
      · intro j hne
        simp [content, hne]
    show (s.logs ++ s.asyncRbb.blkList.filterMap (content
      (fun j => ((s.asyncRbb.setStatus i .put).blkSet j).status) _)).Perm (frame :: s.sent)
    rw [hset]
    exact ((hfill.append_left s.logs).trans List.perm_middle).trans (h.perm.cons frame)

theorem release (h : LogsInv s) : LogsInv (s.semRelease t) := by
  unfold UlogSys.semRelease
  split
  · next hw => exact ⟨h.owned.release (by simp [hw, UlogSys.setSubmit]), h.perm⟩
  · exact ⟨h.owned.release fun _ => Iff.rfl, h.perm⟩

omit [DecidableEq T] in
theorem get (h : LogsInv s) (hd : s.output = .draining) : LogsInv s.blkGet := by
  unfold UlogSys.blkGet RtRbb.rtRbbBlkGet
  cases hf : s.asyncRbb.blkList.find? fun i => decide ((s.asyncRbb.blkSet i).status = .put) with
  | none => exact ⟨h.owned.idle (by simp [hd]), h.perm⟩
  | some i =>
    have hi := List.mem_of_find?_eq_some hf
    have hput : s.status i = .put := by
      have hfound := List.find?_some hf
      exact of_decide_eq_true hfound
    have hset := status_setStatus s.asyncRbb i .get
    constructor
    · show Owned s.asyncRbb.blkList (fun j => ((s.asyncRbb.setStatus i .get).blkSet j).status) _ _
      rw [hset]
      exact h.owned.get (by simp [hd]) hi hput
    · have hsame : content (Function.update s.status i .get) s.frames =
          content s.status s.frames := by
        funext j
        by_cases he : j = i
        · subst he
          simp [content, hput]
        · simp [content, he]
      show (s.logs ++ s.asyncRbb.blkList.filterMap (content
        (fun j => ((s.asyncRbb.setStatus i .get).blkSet j).status) s.frames)).Perm s.sent
      rw [hset]
      show (s.logs ++ s.asyncRbb.blkList.filterMap
        (content (Function.update s.status i .get) s.frames)).Perm s.sent
      rw [hsame]
      exact h.perm

omit [DecidableEq T] in
theorem free (h : LogsInv s) (ho : s.output = .holding i) (hs : s.blkFree i = some s') :
    LogsInv s' := by
  obtain ⟨hi, hget⟩ := h.owned.holding i ho
  unfold UlogSys.blkFree RtRbb.rtRbbBlkFree at hs
  rw [if_pos (show (s.asyncRbb.blkSet i).status ≠ .unused from
    fun hu => h.owned.listed i hi hu)] at hs
  obtain rfl := Option.some.inj hs
  have hset := status_setStatus s.asyncRbb i .unused
  constructor
  · show Owned (s.asyncRbb.blkList.erase i)
      (fun j => ((s.asyncRbb.setStatus i .unused).blkSet j).status) _ _
    rw [hset]
    exact (ho ▸ h.owned).free (by simp)
  · have hcontent : content s.status s.frames i = s.frames i := by simp [content, hget]
    have hout := filterMap_erase (f := content s.status s.frames)
      (g := content (Function.update s.status i .unused) s.frames) h.owned.nodup hi
      fun j hne => by simp [content, hne]
    rw [hcontent] at hout
    show (s.logs ++ (s.frames i).toList ++ (s.asyncRbb.blkList.erase i).filterMap (content
      (fun j => ((s.asyncRbb.setStatus i .unused).blkSet j).status) s.frames)).Perm s.sent
    rw [hset, List.append_assoc]
    exact (hout.symm.append_left s.logs).trans h.perm

theorem step (h : LogsInv s) (hs : ulogStep s act = some s') : LogsInv s' := by
  cases act with
  | alloc t level tag isRaw log => exact h.alloc (ulogStep_cases hs).2
  | put t =>
    obtain ⟨_, _, ht, hput⟩ := ulogStep_cases hs
    exact h.put ht hput
  | release t =>
    obtain rfl : s' = s.semRelease t := ulogStep_cases hs
    exact h.release
  | get =>
    obtain ⟨hd, rfl⟩ := ulogStep_cases hs
    exact h.get hd
  | free =>
    obtain ⟨_, ho, hfree⟩ := ulogStep_cases hs
    exact h.free ho hfree
  | reset =>
    obtain ⟨hd, rfl⟩ := ulogStep_cases hs
    exact ⟨h.owned.idle (by simp [hd, UlogSys.semReset]), h.perm⟩
  | take =>
    obtain ⟨hr, rfl⟩ := ulogStep_cases hs
    unfold UlogSys.semTake
    split
    · exact ⟨h.owned.idle (by simp [hr]), h.perm⟩
    · exact ⟨h.owned.idle (by simp [hr]), h.perm⟩

end LogsInv

/-! ## The bytes of the blocks -/

/-- The blocks in use are disjoint, and on the list. -/
structure BytesInv (rbb : RtRbb) : Prop where
  inv : Inv rbb
  apart : BlocksApart rbb
  listed : ∀ i, Live rbb i → i ∈ rbb.blkList

/-- With no block in use off the list, every place is clear. -/
theorem BytesInv.step {a : Act} (h : BytesInv rbb) (hs : rbbStep rbb a = some rbb')
    (hl : ∀ i, Live rbb' i → i ∈ rbb'.blkList) : BytesInv rbb' where
  inv := h.inv.step hs
  apart := (h.inv.step_iff h.apart hs).mpr fun _ _ _ _ _ i hi hn => absurd (h.listed i hi) hn
  listed := hl

theorem BytesInv.alloc (h : BytesInv rbb) (hn : 1 ≤ n ∧ n ≤ rbb.bufSize)
    (ha : rbb.rtRbbBlkAlloc n = some (rbb', r)) : BytesInv rbb' := by
  have hx : rbbStep rbb (.alloc n) = some rbb' := by
    simp only [rbbStep, ha]
    exact if_pos hn
  obtain ⟨-, rfl⟩ | ⟨k, a, -, -, -, rfl⟩ := alloc_out ha
  · exact h
  · refine h.step hx fun i hi => ?_
    by_cases he : i = k
    · exact List.mem_append_right _ (List.mem_singleton.mpr he)
    · obtain ⟨hlt, hst⟩ := hi
      rw [initBlk_blkSet, if_neg he] at hst
      exact List.mem_append_left _ (h.listed i ⟨hlt, hst⟩)

theorem live_setStatus {x : Status} {j : Nat} (h : Live (rbb.setStatus i x) j) :
    j = i ∧ x ≠ .unused ∨ j ≠ i ∧ Live rbb j := by
  obtain ⟨hlt, hst⟩ := h
  rw [setStatus_blkSet] at hst
  split at hst
  · next he => exact .inl ⟨he, hst⟩
  · next hne => exact .inr ⟨hne, hlt, hst⟩

theorem BytesInv.setStatus {x : Status} {a : Act} (h : BytesInv rbb) (hi : i ∈ rbb.blkList)
    (hs : rbbStep rbb a = some (rbb.setStatus i x)) : BytesInv (rbb.setStatus i x) :=
  h.step hs fun j hj => (live_setStatus hj).elim (fun he => he.1 ▸ hi) fun hl => h.listed j hl.2

/-- The frame is not longer than the buffer. -/
def Fits (s : UlogSys T) : LogAct T → Prop
  | .alloc _ _ _ _ log => UlogSys.frameSize log.length ≤ s.asyncRbb.bufSize
  | _ => True

theorem bytes_step (h : LogsInv s) (hb : BytesInv s.asyncRbb) (hf : Fits s act)
    (hs : ulogStep s act = some s') : BytesInv s'.asyncRbb := by
  cases act with
  | alloc t level tag isRaw log =>
    obtain ⟨-, hx⟩ := ulogStep_cases hs
    have hpos : 1 ≤ UlogSys.frameSize log.length := by
      unfold UlogSys.frameSize
      omega
    unfold UlogSys.blkAlloc at hx
    split at hx
    · cases hx
    all_goals
      next ha =>
        cases hx
        exact hb.alloc ⟨hpos, hf⟩ ha
  | put t =>
    obtain ⟨i, frame, ht, hx⟩ := ulogStep_cases hs
    obtain ⟨hi, hst⟩ := h.owned.filling t i frame ht
    have hput : s.asyncRbb.rtRbbBlkPut i = some (s.asyncRbb.setStatus i .put) := if_pos hst
    simp only [UlogSys.blkPut, hput, Option.some.injEq] at hx
    subst hx
    exact hb.setStatus (a := .put i) hi ((if_pos (hb.inv.listed i hi).1).trans hput)
  | release t =>
    obtain rfl : s' = s.semRelease t := ulogStep_cases hs
    unfold UlogSys.semRelease
    split <;> exact hb
  | get =>
    obtain ⟨-, rfl⟩ := ulogStep_cases hs
    unfold UlogSys.blkGet
    cases hg : s.asyncRbb.blkList.find? fun i => decide ((s.asyncRbb.blkSet i).status = .put) with
    | none =>
      simp only [RtRbb.rtRbbBlkGet, hg]
      exact hb
    | some i =>
      simp only [RtRbb.rtRbbBlkGet, hg]
      exact hb.setStatus (a := .get) (List.mem_of_find?_eq_some hg)
        (by simp only [rbbStep, RtRbb.rtRbbBlkGet, hg])
  | free =>
    obtain ⟨i, ho, hx⟩ := ulogStep_cases hs
    have hlive := hb.inv.listed i (h.owned.holding i ho).1
    have hfree : s.asyncRbb.rtRbbBlkFree i = some (s.asyncRbb.unlink i .unused) := if_pos hlive.2
    simp only [UlogSys.blkFree, hfree, Option.some.injEq] at hx
    subst hx
    refine hb.step (a := .free i) ((if_pos hlive.1).trans hfree) fun j hj => ?_
    have hj : Live (s.asyncRbb.setStatus i .unused) j := hj
    rcases live_setStatus hj with ⟨-, hx⟩ | ⟨hne, hl⟩
    · exact absurd rfl hx
    · exact (List.mem_erase_of_ne hne).mpr (hb.listed j hl)
  | reset =>
    obtain ⟨-, rfl⟩ := ulogStep_cases hs
    exact hb
  | take =>
    obtain ⟨-, rfl⟩ := ulogStep_cases hs
    unfold UlogSys.semTake
    split <;> exact hb

/-- In every run whose frames fit the buffer, the blocks in use lie in it and are disjoint: no
write to one block reaches the frame of another. -/
theorem frames_apart {buf bufSize blkMaxNum : Nat} {blockSet : Nat → RtRbbBlk}
    {acts : List (LogAct T)} (hb : buf + bufSize < 4294967296)
    (hs : exec ulogStep (ulogInit T buf bufSize blockSet blkMaxNum) acts = some s)
    (hf : Along ulogStep Fits (ulogInit T buf bufSize blockSet blkMaxNum) acts) :
    BlocksApart s.asyncRbb := by
  obtain ⟨hinv, hap⟩ := rtRbbInit_inv hb
  have hrun := hf.inv (I := fun s => LogsInv s ∧ BytesInv s.asyncRbb)
    (fun _ _ _ h hk hs => ⟨h.1.step hs, bytes_step h.1 h.2 hk hs⟩) hs
    ⟨ulogInit_logsInv, hinv, hap, fun i hi => absurd hi (rtRbbInit_not_live i)⟩
  exact hrun.2.apart

/-- The assertions of the ring block buffer hold in every run. -/
theorem put_free_ok {buf bufSize blkMaxNum : Nat} {blockSet : Nat → RtRbbBlk}
    {acts : List (LogAct T)} {s : UlogSys T}
    (hs : exec ulogStep (ulogInit T buf bufSize blockSet blkMaxNum) acts = some s) :
    (∀ t i frame, s.submit t = .filling i frame → (s.asyncRbb.rtRbbBlkPut i).isSome) ∧
      ∀ i, s.output = .holding i → (s.asyncRbb.rtRbbBlkFree i).isSome := by
  have hinv := exec_inv (fun _ _ _ h hs => LogsInv.step h hs) hs ulogInit_logsInv
  constructor
  · intro t i frame ht
    have hst : (s.asyncRbb.blkSet i).status = .inited := (hinv.owned.filling t i frame ht).2
    simp [RtRbb.rtRbbBlkPut, hst]
  · intro i ho
    have hst : (s.asyncRbb.blkSet i).status = .get := (hinv.owned.holding i ho).2
    simp [RtRbb.rtRbbBlkFree, hst]

theorem put_free_ok_held : ∃ s i, exec ulogStep fourBlocks
      [.alloc () 7 none true [104, 105], .put (), .get] = some s ∧
    s.output = .holding i ∧ (s.asyncRbb.rtRbbBlkFree i).isSome := by
  obtain ⟨s, hs, ho⟩ := Option.map_eq_some_iff.mp (show (exec ulogStep fourBlocks
    [.alloc () 7 none true [104, 105], .put (), .get]).map UlogSys.output = some (.holding 0) by decide)
  exact ⟨s, 0, hs, ho, (put_free_ok hs).2 0 ho⟩

/-- When the output thread waits in such a run and no notice is to come, it has output every log
that was put, once. -/
theorem all_logs_output {buf bufSize blkMaxNum : Nat} {blockSet : Nat → RtRbbBlk}
    {acts : List (LogAct T)} {s : UlogSys T}
    (hs : exec ulogStep (ulogInit T buf bufSize blockSet blkMaxNum) acts = some s)
    (hc : Along ulogStep Kept (ulogInit T buf bufSize blockSet blkMaxNum) acts)
    (hw : s.output = .waiting) (hns : ¬ Sending s) : s.logs.Perm s.sent := by
  have hlogs := exec_inv (fun _ _ _ h hs => LogsInv.step h hs) hs ulogInit_logsInv
  have hwake : UlogInv s := hc.inv (fun _ _ _ h hk hs => UlogInv.step h hk hs) hs ulogInit_inv
  have hempty : pending s = [] := by
    refine List.filterMap_eq_nil_iff.mpr fun i hi => if_neg ?_
    rintro (hput | hget)
    · exact hns (hwake.waiting hw ⟨i, hi, hput⟩)
    · have hh := hlogs.owned.held i hi hget
      rw [hw] at hh
      cases hh
  have hperm := hlogs.perm
  rwa [hempty, List.append_nil] at hperm

/-- A log that is put, announced and output. -/
def oneLog : List (LogAct Unit) :=
  [.get, .alloc () 7 none true [104, 105], .put (), .reset, .release (), .take, .get, .free, .get,
    .reset, .take]

theorem all_logs_output_one : ∃ s, exec ulogStep fourBlocks oneLog = some s ∧ s.logs.length = 1 ∧
    s.logs.Perm s.sent := by
  obtain ⟨s, hs, hl⟩ := Option.map_eq_some_iff.mp (show (exec ulogStep fourBlocks oneLog).map (fun s =>
    (decide (s.output = .waiting ∧ ¬ Sending s), s.logs.length)) = some (true, 1) by decide)
  obtain ⟨hw, hns⟩ := of_decide_eq_true (Prod.mk.inj hl).1
  exact ⟨s, hs, (Prod.mk.inj hl).2, all_logs_output hs (by decide) hw hns⟩

/-- In every run the logs that were output and those in the buffer are the ones that were put. -/
theorem logs_kept {buf bufSize blkMaxNum : Nat} {blockSet : Nat → RtRbbBlk} {acts : List (LogAct T)}
    {s : UlogSys T} (hs : exec ulogStep (ulogInit T buf bufSize blockSet blkMaxNum) acts = some s) :
    (s.logs ++ pending s).Perm s.sent :=
  (exec_inv (fun _ _ _ h hs => LogsInv.step h hs) hs ulogInit_logsInv).perm

theorem logs_kept_one : ∃ s, exec ulogStep fourBlocks (oneLog.take 7) = some s ∧
    (s.logs ++ pending s).Perm s.sent := by
  obtain ⟨s, hs⟩ := Option.isSome_iff_exists.mp (show (exec ulogStep fourBlocks (oneLog.take 7)).isSome
    by decide)
  exact ⟨s, hs, logs_kept hs⟩

end Tudu.Ulog
