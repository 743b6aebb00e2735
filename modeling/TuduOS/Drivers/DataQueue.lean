import Mathlib.Data.Nat.ModEq
import TuduOS.Kernel.Wait
import TuduOS.Lib.Lts
import TuduOS.Lib.Ring

/-!
# The data queue (`dataqueue.c`)

Any number of threads. A section with interrupts disabled is one step; between two steps any ready
thread may run, and a timer may expire.

* `suspended_push_list` is the list 0, and `suspended_pop_list` the list 1.
* A thread in the loop of `rt_data_queue_push` is at `pushWait` until `rt_schedule` returns, and at
  `pushAgain` between the test of `error` and the next section; `rt_data_queue_pop` is alike.
* A call with the timeout 0 may also be made by an interrupt.

`put_index` and `get_index` run freely on 16 bits, but the test for a full queue subtracts them as
`int`: behind the wrap of `put_index` the difference is negative, and the queue is never full. A
cell is an index modulo `size`, so where `size` does not divide 2^16 the cells before the wrap and
those behind it are not in a row. `Room` says when a push is good all the same.

The ghosts `pushed` and `popped` are the items of the successful calls.
-/

namespace Tudu.DataQueue

open Kern Lts

structure RtDataItem where
  dataPtr : Nat
  dataSize : Nat
  deriving DecidableEq

structure RtDataQueue where
  /-- `rt_uint16_t`, as are the next three. -/
  size : Nat
  lwm : Nat
  getIndex : Nat
  putIndex : Nat
  queue : Nat → RtDataItem

inductive Pc where
  | user
  /-- In `rt_schedule` in `rt_data_queue_push`. -/
  | pushWait (item : RtDataItem) (timeout : Int)
  /-- Resumed without an error, before the next section. -/
  | pushAgain (item : RtDataItem) (timeout : Int)
  /-- In `rt_schedule` in `rt_data_queue_pop`. -/
  | popWait (timeout : Int)
  | popAgain (timeout : Int)
  /-- The call is about to return `r`. -/
  | done (r : Int)
  deriving DecidableEq

structure DqSys where
  kern : Kern
  dq : RtDataQueue
  pc : Nat → Pc
  pushed : List RtDataItem
  popped : List RtDataItem

namespace RtDataQueue

/-- `put_index - get_index == size`, of `int` -/
def full (q : RtDataQueue) : Bool := decide ((q.putIndex : Int) - q.getIndex = q.size)

/-- `put_index - get_index`, taken modulo 2^16 -/
def level (q : RtDataQueue) : Nat := (q.putIndex + (2 ^ 16 - q.getIndex)) % 2 ^ 16

/-- The items, from `get_index` on. -/
def items (q : RtDataQueue) : List RtDataItem :=
  (List.range q.level).map fun i => q.queue ((q.getIndex + i) % 2 ^ 16 % q.size)

end RtDataQueue

open RtDataQueue

namespace DqSys

def setKern (s : DqSys) (k : Kern) : DqSys := { s with kern := k }

def goto (s : DqSys) (t : Nat) (p : Pc) : DqSys := { s with pc := Function.update s.pc t p }

end DqSys

open DqSys

/-- The end of `rt_data_queue_push`: the item is stored, and a thread of the list resumed. -/
def store (s : DqSys) (item : RtDataItem) : DqSys :=
  { s with
    dq := { s.dq with
      queue := Function.update s.dq.queue (s.dq.putIndex % s.dq.size) item
      putIndex := (s.dq.putIndex + 1) % 2 ^ 16 }
    kern := s.kern.resumeFirst 1
    pushed := s.pushed ++ [item] }

/-- The end of `rt_data_queue_pop`: an item is fetched, and a thread of the list resumed if at most
`lwm` items are left; the test subtracts the indices as `int`. -/
def fetch (s : DqSys) : DqSys :=
  let getIndex : Nat := (s.dq.getIndex + 1) % 2 ^ 16
  { s with
    dq := { s.dq with getIndex := getIndex }
    kern := if (s.dq.putIndex : Int) - getIndex ≤ s.dq.lwm then s.kern.resumeFirst 0 else s.kern
    popped := s.popped ++ [s.dq.queue (s.dq.getIndex % s.dq.size)] }

/-- The thread waits on the list `q`; `p` is where it is then. -/
def wait (s : DqSys) (q : Nat) (timeout : Int) (p : Pc) : Option DqSys :=
  (s.kern.waitOn q 0 timeout).map fun k => (s.setKern k).goto s.kern.current p

/-- The loop of `rt_data_queue_push`, from its test on. -/
def rtDataQueuePush (s : DqSys) (item : RtDataItem) (timeout : Int) : Option DqSys :=
  let t := s.kern.current
  if s.dq.full = true then
    if timeout = 0 then some (s.goto t (.done (-rtEtimeout)))
    else wait s 0 timeout (.pushWait item timeout)
  else some ((store s item).goto t (.done rtEok))

/-- The loop of `rt_data_queue_pop`, from its test on. -/
def rtDataQueuePop (s : DqSys) (timeout : Int) : Option DqSys :=
  let t := s.kern.current
  if s.dq.getIndex = s.dq.putIndex then
    if timeout = 0 then some (s.goto t (.done (-rtEtimeout)))
    else wait s 1 timeout (.popWait timeout)
  else some ((fetch s).goto t (.done rtEok))

inductive DqAct where
  /-- An interrupt, or `rt_schedule`, switches to the ready thread `u`. -/
  | preempt (u : Nat)
  /-- The current thread calls `rt_data_queue_push`. -/
  | push (item : RtDataItem) (timeout : Int)
  /-- The current thread calls `rt_data_queue_pop`. -/
  | pop (timeout : Int)
  /-- The current thread goes on in its call. -/
  | goOn
  /-- An interrupt calls `rt_data_queue_push` with the timeout 0. -/
  | isrPush (item : RtDataItem)
  /-- An interrupt calls `rt_data_queue_pop` with the timeout 0. -/
  | isrPop
  /-- The timer of the thread `u` expires. -/
  | timeout (u : Nat)
  deriving DecidableEq

/-- Behind `rt_schedule`: the test of `error`. -/
def afterWait (s : DqSys) (p : Pc) : Option DqSys :=
  let t := s.kern.current
  if (s.kern.thread t).stat = .ready then
    if (s.kern.thread t).error ≠ rtEok then some (s.goto t (.done (s.kern.thread t).error))
    else some (s.goto t p)
  else none

def goOn (s : DqSys) : Option DqSys :=
  match s.pc s.kern.current with
  | .user => none
  | .pushWait item timeout => afterWait s (.pushAgain item timeout)
  | .pushAgain item timeout => rtDataQueuePush s item timeout
  | .popWait timeout => afterWait s (.popAgain timeout)
  | .popAgain timeout => rtDataQueuePop s timeout
  | .done _ => some (s.goto s.kern.current .user)

def dqStep (s : DqSys) : DqAct → Option DqSys
  | .preempt u =>
    if (s.kern.thread u).stat = .ready then some (s.setKern { s.kern with current := u }) else none
  | .push item timeout =>
    match s.pc s.kern.current with
    | .user => rtDataQueuePush s item timeout
    | _ => none
  | .pop timeout =>
    match s.pc s.kern.current with
    | .user => rtDataQueuePop s timeout
    | _ => none
  | .goOn => goOn s
  | .isrPush item => if s.dq.full = true then some s else some (store s item)
  | .isrPop => if s.dq.getIndex = s.dq.putIndex then some s else some (fetch s)
  | .timeout u => (s.kern.rtThreadTimeout u).map s.setKern

/-- `rt_data_queue_init`, over what is in the memory of the cells. -/
def rtDataQueueInit (queue : Nat → RtDataItem) (size lwm : Nat) (priority : Nat → Nat) : DqSys where
  kern := ⟨0, fun t => ⟨.ready, rtEok, priority t, false, false, false⟩, fun _ => []⟩
  dq := ⟨size, lwm, 0, 0, queue⟩
  pc := fun _ => .user
  pushed := []
  popped := []

/-! ## The property and the condition -/

/-- The property: the popped items and the stored ones are the pushed ones, in order, and there are
at most `size` items. -/
structure Fifo (s : DqSys) : Prop where
  order : s.popped ++ s.dq.items = s.pushed
  room : s.dq.level ≤ s.dq.size

/-- The next section of the thread is one of `rt_data_queue_push`. -/
def Pc.pushes : Pc → Bool
  | .pushAgain _ _ => true
  | _ => false

/-- The step is the section of a push that finds the queue not to be full. -/
def Stores (s : DqSys) : DqAct → Prop
  | .push _ _ => s.dq.full = false
  | .goOn => s.dq.full = false ∧ (s.pc s.kern.current).pushes = true
  | .isrPush _ => s.dq.full = false
  | _ => False

/-- `put_index` has not wrapped, as seen from `get_index`; or the queue is not full all the same,
and the cell of `put_index` is not that of an item before the wrap. -/
def Room (q : RtDataQueue) : Prop :=
  q.getIndex ≤ q.putIndex ∨
    q.level < q.size ∧ (2 ^ 16 % q.size ≤ q.putIndex ∨
      2 ^ 16 + q.putIndex < q.getIndex + 2 ^ 16 % q.size)

def StoresInRoom (s : DqSys) (act : DqAct) : Prop := Stores s act → Room s.dq

instance (q : RtDataQueue) : Decidable (Room q) :=
  inferInstanceAs (Decidable (_ ≤ _ ∨ _ < _ ∧ (_ ≤ _ ∨ _ < _)))

instance (s : DqSys) : (act : DqAct) → Decidable (Stores s act)
  | .push _ _ => inferInstanceAs (Decidable (_ = _))
  | .goOn => inferInstanceAs (Decidable (_ = _ ∧ _ = _))
  | .isrPush _ => inferInstanceAs (Decidable (_ = _))
  | .preempt _ => inferInstanceAs (Decidable False)
  | .pop _ => inferInstanceAs (Decidable False)
  | .isrPop => inferInstanceAs (Decidable False)
  | .timeout _ => inferInstanceAs (Decidable False)

instance (s : DqSys) (act : DqAct) : Decidable (StoresInRoom s act) :=
  inferInstanceAs (Decidable (_ → _))

variable {s s' : DqSys} {act : DqAct} {item : RtDataItem} {timeout : Int} {t u q : Nat}

/-- What a step does to the queue. -/
inductive Effect (s s' : DqSys) (act : DqAct) : Prop
  | quiet (hdq : s'.dq = s.dq) (hs : s'.pushed = s.pushed) (hr : s'.popped = s.popped)
  | stored (item : RtDataItem) (hst : Stores s act) (hroom : s.dq.full = false)
      (hdq : s'.dq = (store s item).dq) (hs : s'.pushed = (store s item).pushed)
      (hr : s'.popped = s.popped)
  | fetched (hsome : s.dq.getIndex ≠ s.dq.putIndex) (hdq : s'.dq = (fetch s).dq)
      (hs : s'.pushed = s.pushed) (hr : s'.popped = (fetch s).popped)

/-! ## The steps -/

theorem wait_effect {p : Pc} (h : wait s q timeout p = some s') : Effect s s' act := by
  obtain ⟨k, -, rfl⟩ := Option.map_eq_some_iff.mp h
  exact .quiet rfl rfl rfl

theorem push_effect (hst : s.dq.full = false → Stores s act)
    (h : rtDataQueuePush s item timeout = some s') : Effect s s' act := by
  simp only [rtDataQueuePush] at h
  split at h
  · split at h
    · cases h
      exact .quiet rfl rfl rfl
    · exact wait_effect h
  · next hroom =>
    cases h
    have hfull := Bool.eq_false_iff.mpr hroom
    exact .stored item (hst hfull) hfull rfl rfl rfl

theorem pop_effect (h : rtDataQueuePop s timeout = some s') : Effect s s' act := by
  simp only [rtDataQueuePop] at h
  split at h
  · split at h
    · cases h
      exact .quiet rfl rfl rfl
    · exact wait_effect h
  · next hsome =>
    cases h
    exact .fetched hsome rfl rfl rfl

theorem afterWait_effect {p : Pc} (h : afterWait s p = some s') : Effect s s' act := by
  simp only [afterWait] at h
  split at h
  · split at h <;> cases h <;> exact .quiet rfl rfl rfl
  · cases h

/-- Every step leaves the queue, or stores one item where it is not full, or fetches one. -/
theorem dqStep_effect (h : dqStep s act = some s') : Effect s s' act := by
  cases act with
  | preempt u =>
    simp only [dqStep] at h
    split at h <;> cases h
    exact .quiet rfl rfl rfl
  | push item timeout =>
    simp only [dqStep] at h
    split at h
    · exact push_effect (fun hf => hf) h
    · cases h
  | pop timeout =>
    simp only [dqStep] at h
    split at h
    · exact pop_effect h
    · cases h
  | goOn =>
    simp only [dqStep] at h
    unfold goOn at h
    split at h
    · cases h
    · exact afterWait_effect h
    · next item timeout hpc => exact push_effect (fun hf => ⟨hf, by rw [hpc]; rfl⟩) h
    · exact afterWait_effect h
    · exact pop_effect h
    · cases h
      exact .quiet rfl rfl rfl
  | isrPush item =>
    simp only [dqStep] at h
    split at h <;> cases h
    · exact .quiet rfl rfl rfl
    · next hroom =>
      have hfull := Bool.eq_false_iff.mpr hroom
      exact .stored item hfull hfull rfl rfl rfl
  | isrPop =>
    simp only [dqStep] at h
    split at h <;> cases h
    · exact .quiet rfl rfl rfl
    · exact .fetched ‹_› rfl rfl rfl
  | timeout u =>
    obtain ⟨k, -, rfl⟩ := Option.map_eq_some_iff.mp h
    exact .quiet rfl rfl rfl

/-! ## The queue -/

/-- What holds in every run. -/
structure Fits (q : RtDataQueue) : Prop where
  pos : 0 < q.size
  small : q.size < 2 ^ 16
  put : q.putIndex < 2 ^ 16
  get : q.getIndex < 2 ^ 16

namespace Fits

variable {x : RtDataQueue} (h : Fits x)
include h

theorem level_eq : x.level =
    if x.getIndex ≤ x.putIndex then x.putIndex - x.getIndex
    else x.putIndex + 2 ^ 16 - x.getIndex := by
  have hp := h.put
  have hg := h.get
  unfold level
  split <;> omega

/-- The test for a full queue fails behind the wrap. -/
theorem full_iff : x.full = true ↔ x.getIndex ≤ x.putIndex ∧ x.level = x.size := by
  have hp := h.put
  have hg := h.get
  have hpos := h.pos
  rw [full, decide_eq_true_eq, h.level_eq]
  split <;> omega

theorem level_zero : x.level = 0 ↔ x.getIndex = x.putIndex := by
  have hp := h.put
  have hg := h.get
  rw [h.level_eq]
  split <;> omega

/-- The cell of a new item is that of no item. -/
theorem cell_ne (hroom : Room x) (hlt : x.level < x.size) {i : Nat} (hi : i < x.level) :
    (x.getIndex + i) % 2 ^ 16 % x.size ≠ x.putIndex % x.size := by
  have hp := h.put
  have hg := h.get
  have hl := h.level_eq
  intro he
  by_cases hwrap : x.putIndex < x.getIndex ∧ x.getIndex + i < 2 ^ 16
  · -- the item lies before the wrap: the distance of the cells is `2 ^ 16 % size`
    rw [if_neg (Nat.not_le_of_lt hwrap.1)] at hl
    rw [Nat.mod_eq_of_lt hwrap.2] at he
    have hsum : x.getIndex + i + (x.level - i) = x.putIndex + 2 ^ 16 := by omega
    have hmod : (x.putIndex + (x.level - i)) % x.size = (x.putIndex + 2 ^ 16) % x.size := by
      rw [← hsum, Nat.add_mod, ← he, ← Nat.add_mod]
    have hd : (x.level - i) % x.size = 2 ^ 16 % x.size :=
      Nat.ModEq.add_left_cancel' x.putIndex hmod
    rw [Nat.mod_eq_of_lt (by omega)] at hd
    rcases hroom with hle | ⟨-, hle | hle⟩ <;> omega
  · have hle : (x.getIndex + i) % 2 ^ 16 ≤ x.putIndex ∧
        x.putIndex - (x.getIndex + i) % 2 ^ 16 = x.level - i := by
      split at hl <;> omega
    have hd := Nat.sub_mod_eq_zero_of_mod_eq he.symm
    rw [hle.2, Nat.mod_eq_of_lt (by omega)] at hd
    omega

end Fits

theorem level_store (h : Fits s.dq) (hlt : s.dq.level < s.dq.size) :
    (store s item).dq.level = s.dq.level + 1 := by
  have hp := h.put
  have hg := h.get
  have hs := h.small
  have hl : s.dq.level = (s.dq.putIndex + (2 ^ 16 - s.dq.getIndex)) % 2 ^ 16 := rfl
  show ((s.dq.putIndex + 1) % 2 ^ 16 + (2 ^ 16 - s.dq.getIndex)) % 2 ^ 16 = _
  omega

theorem items_store (h : Fits s.dq) (hroom : Room s.dq) (hlt : s.dq.level < s.dq.size) :
    (store s item).dq.items = s.dq.items ++ [item] := by
  have hp := h.put
  have hg := h.get
  rw [items, level_store h hlt, List.range_succ, List.map_append, List.map_singleton]
  refine congr (congrArg _ (List.map_congr_left fun i hi => ?_)) (congrArg (fun x => [x]) ?_)
  · exact Function.update_of_ne (h.cell_ne hroom hlt (List.mem_range.mp hi)) ..
  · have hend : (s.dq.getIndex + s.dq.level) % 2 ^ 16 = s.dq.putIndex := by
      rw [h.level_eq]
      split <;> omega
    show Function.update s.dq.queue _ item ((s.dq.getIndex + s.dq.level) % 2 ^ 16 % s.dq.size) = _
    rw [hend, Function.update_self]

theorem level_fetch (h : Fits s.dq) (hsome : s.dq.getIndex ≠ s.dq.putIndex) :
    s.dq.level = (fetch s).dq.level + 1 := by
  have hp := h.put
  have hg := h.get
  have hl : (fetch s).dq.level =
    (s.dq.putIndex + (2 ^ 16 - (s.dq.getIndex + 1) % 2 ^ 16)) % 2 ^ 16 := rfl
  rw [hl, level]
  omega

theorem items_fetch (h : Fits s.dq) (hsome : s.dq.getIndex ≠ s.dq.putIndex) :
    s.dq.items = s.dq.queue (s.dq.getIndex % s.dq.size) :: (fetch s).dq.items := by
  rw [items, level_fetch h hsome, List.range_succ_eq_map, List.map_cons, List.map_map,
    Nat.add_zero, Nat.mod_eq_of_lt h.get]
  refine congrArg _ (List.map_congr_left fun i _ => ?_)
  show s.dq.queue ((s.dq.getIndex + (i + 1)) % 2 ^ 16 % s.dq.size) =
    s.dq.queue (((s.dq.getIndex + 1) % 2 ^ 16 + i) % 2 ^ 16 % s.dq.size)
  rw [Nat.mod_add_mod, Nat.add_assoc, Nat.add_comm 1 i]

theorem Fits.step (h : Fits s.dq) (hs : dqStep s act = some s') :
    Fits s'.dq ∧ s'.dq.size = s.dq.size ∧ s'.dq.lwm = s.dq.lwm := by
  cases dqStep_effect hs with
  | quiet hdq =>
    rw [hdq]
    exact ⟨h, rfl, rfl⟩
  | stored item _ _ hdq =>
    rw [hdq]
    exact ⟨⟨h.pos, h.small, Nat.mod_lt _ (by decide), h.get⟩, rfl, rfl⟩
  | fetched _ hdq =>
    rw [hdq]
    exact ⟨⟨h.pos, h.small, h.put, Nat.mod_lt _ (by decide)⟩, rfl, rfl⟩

theorem Fifo.step (hf : Fits s.dq) (h : Fifo s) (hc : StoresInRoom s act)
    (hs : dqStep s act = some s') : Fifo s' := by
  cases dqStep_effect hs with
  | quiet hdq hpu hpo =>
    constructor
    · rw [hdq, hpu, hpo]
      exact h.order
    · rw [hdq]
      exact h.room
  | stored item hst hfull hdq hpu hpo =>
    have hroom := hc hst
    have hlt : s.dq.level < s.dq.size := by
      rcases hroom with hle | ⟨hlt, -⟩
      · refine Nat.lt_of_le_of_ne h.room fun he => ?_
        rw [hf.full_iff.mpr ⟨hle, he⟩] at hfull
        cases hfull
      · exact hlt
    constructor
    · rw [hdq, hpu, hpo, items_store hf hroom hlt, ← List.append_assoc, h.order]
      rfl
    · rw [hdq, level_store hf hlt]
      exact hlt
  | fetched hsome hdq hpu hpo =>
    constructor
    · rw [hdq, hpu, hpo, ← h.order, items_fetch hf hsome]
      exact List.append_assoc ..
    · have hlevel := level_fetch hf hsome
      have hroom := h.room
      rw [hdq]
      show (fetch s).dq.level ≤ s.dq.size
      omega

section Init

variable {queue : Nat → RtDataItem} {size lwm : Nat} {priority : Nat → Nat}

theorem init_fits (hpos : 0 < size) (hsmall : size < 2 ^ 16) :
    Fits (rtDataQueueInit queue size lwm priority).dq :=
  ⟨hpos, hsmall, Nat.two_pow_pos 16, Nat.two_pow_pos 16⟩

theorem init_level : (rtDataQueueInit queue size lwm priority).dq.level = 0 := by
  simp [rtDataQueueInit, level]

theorem init_fifo : Fifo (rtDataQueueInit queue size lwm priority) := by
  constructor
  · rw [items, init_level]
    rfl
  · rw [init_level]
    exact Nat.zero_le _

end Init

/-- **When the data queue is a FIFO.** In every run whose pushes find room, the popped items and the
stored ones are the pushed ones, in order, and there are at most `size` of them. -/
theorem data_queue_fifo (queue : Nat → RtDataItem) (size lwm : Nat) (priority : Nat → Nat)
    (hpos : 0 < size) (hsmall : size < 2 ^ 16) (acts : List DqAct) (s : DqSys)
    (hx : exec dqStep (rtDataQueueInit queue size lwm priority) acts = some s)
    (hc : Along dqStep StoresInRoom (rtDataQueueInit queue size lwm priority) acts) :
    Fifo s ∧ s.dq.size = size := by
  obtain ⟨-, hsize, hfifo⟩ := Along.inv
    (I := fun s => Fits s.dq ∧ s.dq.size = size ∧ Fifo s)
    (fun s act s' ⟨hf, hsize, h⟩ hr hs =>
      ⟨(hf.step hs).1, (hf.step hs).2.1.trans hsize, h.step hf hr hs⟩) hc hx
    ⟨init_fits hpos hsmall, rfl, init_fifo⟩
  exact ⟨hfifo, hsize⟩

/-- A queue of 4 items. -/
def fourItems : DqSys := rtDataQueueInit (fun _ => ⟨0, 0⟩) 4 0 (fun _ => 0)

/-- A thread waits for the item that the next one pushes. -/
def fourRun : List DqAct :=
  [.pop (-1), .preempt 1, .push ⟨7, 1⟩ 0, .goOn, .push ⟨8, 1⟩ 0, .preempt 0, .goOn, .goOn]

theorem data_queue_fifo_four : ∃ s, exec dqStep fourItems fourRun = some s ∧
    s.popped = [⟨7, 1⟩] ∧ Fifo s ∧ s.dq.size = 4 := by
  have hx : (exec dqStep fourItems fourRun).map DqSys.popped = some [⟨7, 1⟩] := by decide +kernel
  obtain ⟨s, hs, hp⟩ := Option.map_eq_some_iff.mp hx
  exact ⟨s, hs, hp, data_queue_fifo _ 4 0 _ (by decide) (by decide) fourRun s hs
    (by decide +kernel)⟩

/-! ## Behind the wrap -/

/-- The thread `k.current` is at work, and the others are as `k` and `pcs` say. -/
structure At (k : Kern) (pcs : Nat → Pc) (size lwm get put : Nat) (s : DqSys) : Prop where
  kern : s.kern = k
  pc : s.pc = pcs
  size : s.dq.size = size
  lwm : s.dq.lwm = lwm
  get : s.dq.getIndex = get
  put : s.dq.putIndex = put

/-- A push, and a pop, that return at once. -/
def pushNow : List DqAct := [.push ⟨0, 0⟩ (-1), .goOn]

def popNow : List DqAct := [.pop (-1), .goOn]

section Runs

variable {k : Kern} {pcs : Nat → Pc} {size lwm get put n : Nat}

theorem resumeFirst_nil (h : k.suspendThread q = []) : k.resumeFirst q = k := by
  rw [resumeFirst, h]

theorem goto_back {r : Int} (h : s.pc s.kern.current = .user) :
    exec dqStep (s.goto s.kern.current (.done r)) [.goOn] = some s := by
  have hs : (s.goto s.kern.current (.done r)).goto s.kern.current .user = s := by
    show { s with pc := _ } = s
    rw [goto, Function.update_idem, ← h, Function.update_eq_self]
  have hg : dqStep (s.goto s.kern.current (.done r)) .goOn =
      some ((s.goto s.kern.current (.done r)).goto s.kern.current .user) := by
    simp only [dqStep, goOn, goto, Function.update_self]
  rw [exec_cons hg, hs]
  rfl

theorem At.push (h : At k pcs size lwm get put s) (hu : pcs k.current = .user)
    (hq : k.suspendThread 1 = []) (hf : (put : Int) - get ≠ size) :
    ∃ s', exec dqStep s pushNow = some s' ∧ At k pcs size lwm get ((put + 1) % 2 ^ 16) s' := by
  obtain ⟨hk, hpc, hs, hl, hg, hp⟩ := h
  have huser : s.pc s.kern.current = .user := by rw [hk, hpc, hu]
  have hfull : s.dq.full = false := by
    rw [full, hs, hg, hp]
    exact decide_eq_false hf
  have hkern : (store s ⟨0, 0⟩).kern = s.kern := by
    show s.kern.resumeFirst 1 = s.kern
    rw [hk, resumeFirst_nil hq]
  have hstep : dqStep s (.push ⟨0, 0⟩ (-1)) =
      some ((store s ⟨0, 0⟩).goto s.kern.current (.done rtEok)) := by
    simp only [dqStep, huser, rtDataQueuePush, hfull, Bool.false_eq_true, if_false]
  refine ⟨store s ⟨0, 0⟩, ?_, hkern.trans hk, hpc, hs, hl, hg, ?_⟩
  · rw [pushNow, exec_cons hstep, ← hkern]
    refine goto_back ?_
    rw [hkern]
    exact huser
  · show (s.dq.putIndex + 1) % 2 ^ 16 = _
    rw [hp]

theorem At.pop (h : At k pcs size lwm get put s) (hu : pcs k.current = .user)
    (hq : (put : Int) - ((get + 1) % 2 ^ 16 : Nat) ≤ lwm → k.suspendThread 0 = [])
    (hne : get ≠ put) :
    ∃ s', exec dqStep s popNow = some s' ∧ At k pcs size lwm ((get + 1) % 2 ^ 16) put s' := by
  obtain ⟨hk, hpc, hs, hl, hg, hp⟩ := h
  have huser : s.pc s.kern.current = .user := by rw [hk, hpc, hu]
  have hsome : s.dq.getIndex ≠ s.dq.putIndex := by rwa [hg, hp]
  have hkern : (fetch s).kern = s.kern := by
    show (if (s.dq.putIndex : Int) - ((s.dq.getIndex + 1) % 2 ^ 16 : Nat) ≤ s.dq.lwm then
      s.kern.resumeFirst 0 else s.kern) = s.kern
    split
    · next hle =>
      rw [hg, hp, hl] at hle
      rw [hk, resumeFirst_nil (hq hle)]
    · rfl
  have hstep : dqStep s (.pop (-1)) = some ((fetch s).goto s.kern.current (.done rtEok)) := by
    simp only [dqStep, huser, rtDataQueuePop, hsome, if_false]
  refine ⟨fetch s, ?_, hkern.trans hk, hpc, hs, hl, ?_, hp⟩
  · rw [popNow, exec_cons hstep, ← hkern]
    refine goto_back ?_
    rw [hkern]
    exact huser
  · show (s.dq.getIndex + 1) % 2 ^ 16 = _
    rw [hg]

end Runs

/-- Items come and go, one at a time, until both indices are at `n`. -/
def roundsTo (n : Nat) : List DqAct := (List.replicate n (pushNow ++ popNow)).flatten

theorem roundsTo_succ (n : Nat) : roundsTo (n + 1) = roundsTo n ++ (pushNow ++ popNow) := by
  rw [roundsTo, List.replicate_succ', List.flatten_concat, ← roundsTo]

theorem fourItems_rounds {n : Nat} (hn : n < 2 ^ 16) : ∃ s,
    exec dqStep fourItems (roundsTo n) = some s ∧
      At fourItems.kern fourItems.pc 4 0 n n s := by
  induction n with
  | zero => exact ⟨fourItems, rfl, ⟨rfl, rfl, rfl, rfl, rfl, rfl⟩⟩
  | succ n ih =>
    obtain ⟨s, hx, hs⟩ := ih (Nat.lt_of_succ_lt hn)
    obtain ⟨s1, hx1, hs1⟩ := hs.push rfl rfl (by omega)
    rw [Nat.mod_eq_of_lt hn] at hs1
    obtain ⟨s2, hx2, hs2⟩ := hs1.pop rfl (fun _ => rfl) (by omega)
    rw [Nat.mod_eq_of_lt hn] at hs2
    refine ⟨s2, ?_, hs2⟩
    rw [roundsTo_succ, exec_append hx, exec_append hx1, hx2]

/-- Behind 65534 items, five more go into the queue. -/
def lapRun : List DqAct :=
  roundsTo 65534 ++ (pushNow ++ (pushNow ++ (pushNow ++ (pushNow ++ pushNow))))

theorem lapRun_not_fifo : ∃ s, exec dqStep fourItems lapRun = some s ∧ s.dq.level = 5 ∧
    ¬ Fifo s := by
  obtain ⟨s, hx, hs⟩ := fourItems_rounds (n := 65534) (by decide)
  obtain ⟨s1, hx1, hs1⟩ := hs.push rfl rfl (by decide)
  obtain ⟨s2, hx2, hs2⟩ := hs1.push rfl rfl (by decide)
  obtain ⟨s3, hx3, hs3⟩ := hs2.push rfl rfl (by decide)
  obtain ⟨s4, hx4, hs4⟩ := hs3.push rfl rfl (by decide)
  obtain ⟨s5, hx5, hs5⟩ := hs4.push rfl rfl (by decide)
  have hlevel : s5.dq.level = 5 := by
    rw [level, hs5.get, hs5.put]
    decide
  refine ⟨s5, ?_, hlevel, fun hf => ?_⟩
  · rw [lapRun, exec_append hx, exec_append hx1, exec_append hx2, exec_append hx3,
      exec_append hx4, hx5]
  · have hroom := hf.room
    rw [hlevel, hs5.size] at hroom
    omega

end Tudu.DataQueue
