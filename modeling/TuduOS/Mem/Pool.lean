import Mathlib.Data.BitVec
import Mathlib.Data.List.Nodup
import Mathlib.Data.List.Perm.Basic
import TuduOS.Kernel.Wait
import TuduOS.Lib.Chain
import TuduOS.Lib.Lts

/-!
# Memory pools (`mempool.c`)

A pool and any number of threads. A section with interrupts disabled is one step; between two steps
any ready thread may run, a timer may expire and the tick may go on.

* A block is the address of its header, and 0 is `NULL`; `header` is the word at each address. What
  a caller writes into its block is not in a header.
* The suspend list of the pool is the list 0.
* A thread in the loop of `rt_mp_alloc` is at `allocWait` until `rt_schedule` returns, and at
  `allocAgain` between the test of `error` and the next section; `before` is `before_sleep`.

The ghost `held` has the blocks that are out, each with the thread that got it; `woken` has the
threads that a `rt_mp_free` resumed and that have not tested `block_free_count` since.
-/

namespace Tudu.Pool

open Kern Lts

structure RtMempool where
  /-- The address of the object. -/
  self : Nat
  startAddress : Nat
  size : Nat
  blockSize : Nat
  blockList : Nat
  blockTotalCount : Nat
  blockFreeCount : Nat

inductive Pc where
  | user
  /-- In `rt_schedule` in `rt_mp_alloc`, with the time that is left. -/
  | allocWait (time : Int) (before : Nat)
  | allocAgain (time : Int) (before : Nat)
  /-- `rt_mp_alloc` is about to return the block, or `NULL`. -/
  | done (block : Nat)
  deriving DecidableEq

structure PoolSys where
  kern : Kern
  mp : RtMempool
  header : Nat → Nat
  pc : Nat → Pc
  tick : Nat
  held : List (Nat × Nat)
  woken : Nat → Bool

namespace PoolSys

def setKern (s : PoolSys) (k : Kern) : PoolSys := { s with kern := k }

def goto (s : PoolSys) (t : Nat) (p : Pc) : PoolSys := { s with pc := Function.update s.pc t p }

def setWoken (s : PoolSys) (t : Nat) (b : Bool) : PoolSys :=
  { s with woken := Function.update s.woken t b }

end PoolSys

/-- The first loop of `rt_mp_init`, of so many rounds. -/
def linkBlocks (start stride : Nat) (header : Nat → Nat) : Nat → Nat → Nat
  | 0 => header
  | k + 1 => Function.update (linkBlocks start stride header k) (start + k * stride)
      (start + (k + 1) * stride)

/-- `rt_mp_init`: the pool, and the headers if there is a block. -/
def rtMpInit (header : Nat → Nat) (self start : Nat) (size blockSize : BitVec 32) :
    RtMempool × (Nat → Nat) :=
  let size := rtAlignDown size.toNat
  let blockSize := rtAlign blockSize.toNat
  let stride := add32 blockSize 4
  let count := size / stride
  (⟨self, start, size, blockSize, start, count, count⟩,
    Function.update (linkBlocks start stride header count) (start + (count - 1) * stride) 0)

/-- The end of `rt_mp_alloc`: the first block is taken. -/
def takeBlock (s : PoolSys) : Option PoolSys :=
  let t := s.kern.current
  let b := s.mp.blockList
  if b = 0 then none
  else
    some ({ s with
      mp := { s.mp with blockFreeCount := sub32 s.mp.blockFreeCount 1, blockList := s.header b }
      header := Function.update s.header b s.mp.self
      held := (b, t) :: s.held }.goto t (.done b))

/-- The thread goes to the front of the suspend list. -/
def suspendFront (k : Kern) (time : Int) : Option Kern :=
  let t := k.current
  let k := (k.setError t rtEok).rtThreadSuspend t
  if (k.thread t).linked then none
  else
    let k := { k.setThread t { k.thread t with linked := true } with
      suspendThread := Function.update k.suspendThread 0 (t :: k.suspendThread 0) }
    some (if time > 0 then k.startTimer t else k)

/-- The loop of `rt_mp_alloc`, from its test on. -/
def allocLoop (s : PoolSys) (time : Int) (before : Nat) : Option PoolSys :=
  let t := s.kern.current
  let s := s.setWoken t false
  if s.mp.blockFreeCount = 0 then
    if time = 0 then some ((s.setKern (s.kern.setError t (-rtEtimeout))).goto t (.done 0))
    else
      (suspendFront s.kern time).map fun k =>
        (s.setKern k).goto t (.allocWait time (if time > 0 then s.tick else before))
  else takeBlock s

/-- `rt_mp_free` of the block `b`, up to its `rt_schedule`. -/
def rtMpFree (s : PoolSys) (b : Nat) : Option PoolSys :=
  if s.header b = s.mp.self then
    let s := { s with
      mp := { s.mp with blockFreeCount := add32 s.mp.blockFreeCount 1, blockList := b }
      header := Function.update s.header b s.mp.blockList }
    match s.kern.suspendThread 0 with
    | u :: _ => some ((s.setKern ((s.kern.setError u rtEok).rtThreadResume u)).setWoken u true)
    | [] => some s
  else none

inductive PoolAct where
  /-- An interrupt, or `rt_schedule`, switches to the ready thread `u`. -/
  | preempt (u : Nat)
  /-- The current thread calls `rt_mp_alloc(mp, time)`. -/
  | alloc (time : Int)
  /-- The current thread calls `rt_mp_free` on the block that `u` got. -/
  | free (b u : Nat)
  /-- The current thread goes on in its call. -/
  | goOn
  /-- The timer of the thread `u` expires. -/
  | timeout (u : Nat)
  /-- The tick goes on. -/
  | tick
  deriving DecidableEq

def goOn (s : PoolSys) : Option PoolSys :=
  let t := s.kern.current
  match s.pc t with
  | .user => none
  | .allocWait time before =>
    if (s.kern.thread t).stat = .ready then
      if (s.kern.thread t).error ≠ rtEok then some (s.goto t (.done 0))
      else some (s.goto t (.allocAgain time before))
    else none
  | .allocAgain time before => allocLoop s (restTime time before s.tick) before
  | .done _ => some (s.goto t .user)

def poolStep (s : PoolSys) : PoolAct → Option PoolSys
  | .preempt u =>
    if (s.kern.thread u).stat = .ready then some (s.setKern { s.kern with current := u }) else none
  | .alloc time =>
    match s.pc s.kern.current with
    | .user => allocLoop s time 0
    | _ => none
  | .free b u =>
    match s.pc s.kern.current with
    | .user =>
      if s.held.contains (b, u) then
        (rtMpFree s b).map fun s => { s with held := s.held.erase (b, u) }
      else none
    | _ => none
  | .goOn => goOn s
  | .timeout u => (s.kern.rtThreadTimeout u).map s.setKern
  | .tick => some { s with tick := (s.tick + 1) % 2 ^ 32 }

/-- A pool from `rt_mp_init`, and threads that have not used it yet. -/
def poolInit (header : Nat → Nat) (self start : Nat) (size blockSize : BitVec 32)
    (priority : Nat → Nat) : PoolSys where
  kern := ⟨0, fun t => ⟨.ready, rtEok, priority t, false, false, false⟩, fun _ => []⟩
  mp := (rtMpInit header self start size blockSize).1
  header := (rtMpInit header self start size blockSize).2
  pc _ := .user
  tick := 0
  held := []
  woken _ := false

/-- The blocks of the pool. -/
def blocks (mp : RtMempool) : List Nat :=
  (List.range mp.blockTotalCount).map fun i => mp.startAddress + i * add32 mp.blockSize 4

/-- A word as a pointer. -/
def ptr (a : Nat) : Option Nat := if a = 0 then none else some a

/-- The free list has `block_free_count` blocks, and each block of the pool is on it, or is held by
one caller. -/
structure Conserved (s : PoolSys) (free : List Nat) : Prop where
  chain : Chain.IsChain (fun b => ptr (s.header b)) (ptr s.mp.blockList) free
  count : free.length = s.mp.blockFreeCount
  nodup : free.Nodup
  once : (s.held.map Prod.fst).Nodup
  apart : ∀ b ∈ free, b ∉ s.held.map Prod.fst
  all : ∀ b, b ∈ blocks s.mp ↔ b ∈ free ∨ b ∈ s.held.map Prod.fst

variable {s s' : PoolSys} {k : Kern} {free l : List Nat} {b t u before : Nat} {time : Int}
  {act : PoolAct}

/-! ## The blocks -/

/-- The free blocks and those that are out are the blocks of the pool. -/
structure Ledger (s : PoolSys) (free : List Nat) : Prop where
  chain : Chain.IsChain (fun b => ptr (s.header b)) (ptr s.mp.blockList) free
  count : free.length = s.mp.blockFreeCount
  perm : (free ++ s.held.map Prod.fst).Perm (blocks s.mp)
  owner : ∀ p ∈ s.held, s.header p.1 = s.mp.self
  nonzero : ∀ b ∈ blocks s.mp, b ≠ 0
  distinct : (blocks s.mp).Nodup
  small : s.mp.blockTotalCount < 2 ^ 32

theorem ptr_eq_some : ptr b = some t ↔ b = t ∧ t ≠ 0 := by
  unfold ptr
  split
  · next h => exact ⟨fun he => (by cases he), fun he => absurd (he.1 ▸ h) he.2⟩
  · next h =>
    refine ⟨fun he => ?_, fun he => congrArg some he.1⟩
    obtain rfl := Option.some.inj he
    exact ⟨rfl, h⟩

theorem ptr_update (header : Nat → Nat) (b v : Nat) :
    (fun x => ptr (Function.update header b v x)) =
      Function.update (fun x => ptr (header x)) b (ptr v) := by
  funext x
  by_cases hx : x = b
  · subst hx
    rw [Function.update_self, Function.update_self]
  · rw [Function.update_of_ne hx, Function.update_of_ne hx]

namespace Ledger

theorem nodup (h : Ledger s free) : (free ++ s.held.map Prod.fst).Nodup :=
  h.perm.nodup_iff.mpr h.distinct

theorem conserved (h : Ledger s free) : Conserved s free := by
  obtain ⟨hf, hh, hd⟩ := List.nodup_append.mp h.nodup
  refine ⟨h.chain, h.count, hf, hh, fun b hb hb' => hd b hb b hb' rfl, fun b => ?_⟩
  rw [← h.perm.mem_iff, List.mem_append]

theorem length_lt (h : Ledger s free) : free.length + s.held.length < 2 ^ 32 := by
  have hl := h.perm.length_eq
  rw [List.length_append, List.length_map, blocks, List.length_map, List.length_range] at hl
  rw [hl]
  exact h.small

theorem congr (h : Ledger s free) (hmp : s'.mp = s.mp) (hh : s'.header = s.header)
    (hheld : s'.held = s.held) : Ledger s' free := by
  refine ⟨?_, ?_, ?_, ?_, ?_, ?_, ?_⟩ <;> rw [hmp]
  · rw [hh]
    exact h.chain
  · exact h.count
  · rw [hheld]
    exact h.perm
  · rw [hheld, hh]
    exact h.owner
  · exact h.nonzero
  · exact h.distinct
  · exact h.small

/-- Where `block_free_count` is not 0, the first block goes to the caller. -/
theorem takeBlock (h : Ledger s free) (hc : s.mp.blockFreeCount ≠ 0) :
    ∃ b free' s', free = b :: free' ∧ b ≠ 0 ∧ Pool.takeBlock s = some s' ∧ Ledger s' free' ∧
      s'.held = (b, s.kern.current) :: s.held ∧ s'.kern = s.kern ∧ s'.woken = s.woken ∧
      s'.pc = Function.update s.pc s.kern.current (.done b) := by
  cases free with
  | nil => exact absurd h.count.symm hc
  | cons b free =>
    obtain ⟨hb, hb0⟩ := ptr_eq_some.mp h.chain.1
    have hlen := h.length_lt
    have hnd := List.nodup_append.mp h.nodup
    have hbf : b ∉ free := (List.nodup_cons.mp hnd.1).1
    have hbh : ∀ p ∈ s.held, p.1 ≠ b := fun p hp he =>
      hnd.2.2 b List.mem_cons_self p.1 (List.mem_map_of_mem hp) he.symm
    refine ⟨b, free, { s with
      mp := { s.mp with blockFreeCount := sub32 s.mp.blockFreeCount 1, blockList := s.header b }
      header := Function.update s.header b s.mp.self
      held := (b, s.kern.current) :: s.held
      pc := Function.update s.pc s.kern.current (.done b) }, rfl, hb0, ?_, ?_, rfl, rfl, rfl, rfl⟩
    · unfold Pool.takeBlock
      simp only [hb]
      rw [if_neg hb0]
      rfl
    · refine ⟨?_, ?_, ?_, fun p hp => ?_, h.nonzero, h.distinct, h.small⟩
      · rw [ptr_update]
        exact h.chain.tail.update hbf _
      · have hcount := h.count
        rw [List.length_cons] at hcount hlen
        show free.length = sub32 s.mp.blockFreeCount 1
        rw [sub32_of_le (by omega)]
        omega
      · exact List.perm_middle.trans h.perm
      · show Function.update s.header b s.mp.self p.1 = s.mp.self
        rcases List.mem_cons.mp hp with rfl | hp
        · exact Function.update_self ..
        · rw [Function.update_of_ne (hbh p hp)]
          exact h.owner p hp

/-- A block that is out goes back to the front of the list. -/
theorem giveBack (h : Ledger s free) (hm : (b, u) ∈ s.held)
    (hmp : s'.mp = { s.mp with blockFreeCount := add32 s.mp.blockFreeCount 1, blockList := b })
    (hh : s'.header = Function.update s.header b s.mp.blockList)
    (hheld : s'.held = s.held.erase (b, u)) : Ledger s' (b :: free) := by
  have hlen := h.length_lt
  have hpos := List.length_pos_of_mem hm
  have hnd := List.nodup_append.mp h.nodup
  have hbm : b ∈ s.held.map Prod.fst := List.mem_map_of_mem (f := Prod.fst) hm
  have hbf : b ∉ free := fun hb => hnd.2.2 b hb b hbm rfl
  have hp : (s.held.map Prod.fst).Perm (b :: (s.held.erase (b, u)).map Prod.fst) :=
    (List.perm_cons_erase hm).map Prod.fst
  have hblocks : blocks s'.mp = blocks s.mp := by
    rw [hmp]
    rfl
  have hb0 : b ≠ 0 := h.nonzero b (h.perm.mem_iff.mp (List.mem_append_right _ hbm))
  refine ⟨?_, ?_, ?_, fun p hpm => ?_, ?_, ?_, ?_⟩
  · rw [hh, hmp, ptr_update]
    have hptr : ptr b = some b := ptr_eq_some.mpr ⟨rfl, hb0⟩
    rw [hptr]
    exact h.chain.cons hbf
  · have hcount := h.count
    rw [hmp]
    show free.length + 1 = add32 s.mp.blockFreeCount 1
    rw [add32_of_lt (by omega)]
    omega
  · rw [hheld, hblocks]
    refine List.Perm.trans ?_ h.perm
    exact List.perm_middle.symm.trans (List.Perm.append_left free hp.symm)
  · rw [hheld] at hpm
    rw [hh, hmp]
    have hne : p.1 ≠ b := fun he => by
      have hn : (b :: (s.held.erase (b, u)).map Prod.fst).Nodup := hp.nodup_iff.mp hnd.2.1
      have hpf : p.1 ∈ (s.held.erase (b, u)).map Prod.fst := List.mem_map_of_mem hpm
      rw [he] at hpf
      exact (List.nodup_cons.mp hn).1 hpf
    rw [Function.update_of_ne hne]
    exact h.owner p (List.mem_of_mem_erase hpm)
  · rw [hblocks]
    exact h.nonzero
  · rw [hblocks]
    exact h.distinct
  · rw [hmp]
    exact h.small

end Ledger

/-! ## The threads -/

/-- A suspended thread waits in `rt_mp_alloc`, and one that a free resumed goes on there. -/
structure Threads (s : PoolSys) : Prop where
  waits : ∀ u, (s.kern.thread u).stat = .suspend →
    (∃ time before, s.pc u = .allocWait time before) ∧ s.woken u = false
  linked : ∀ u, (s.kern.thread u).linked = true → (s.kern.thread u).stat = .suspend
  listed : ∀ u, u ∈ s.kern.suspendThread 0 → (s.kern.thread u).stat = .suspend
  woken : ∀ u, s.woken u = true → (s.kern.thread u).stat = .ready ∧
    ((∃ time before, s.pc u = .allocWait time before ∧ (s.kern.thread u).error = rtEok) ∨
      ∃ time before, s.pc u = .allocAgain time before)

theorem ready_of_ne {x : ThreadStat} (h : x ≠ .suspend) : x = .ready := by
  cases x with
  | ready => rfl
  | suspend => exact absurd rfl h

/-- The thread that begins to wait, and the others. -/
theorem suspendFront_spec (time : Int) (hr : (k.thread k.current).stat = .ready)
    (hl : (k.thread k.current).linked = false) : ∃ k', suspendFront k time = some k' ∧
      (k'.thread k.current).stat = .suspend ∧ k'.current = k.current ∧
      (∀ u, u ≠ k.current → k'.thread u = k.thread u) ∧
      k'.suspendThread 0 = k.current :: k.suspendThread 0 := by
  have hself : ((k.setError k.current rtEok).rtThreadSuspend k.current).thread k.current =
      { k.thread k.current with error := rtEok, stat := .suspend, timer := false } := by
    rw [rtThreadSuspend_thread]
    simp [hr]
  have hother : ∀ u, u ≠ k.current →
      ((k.setError k.current rtEok).rtThreadSuspend k.current).thread u = k.thread u := by
    intro u hu
    rw [rtThreadSuspend_thread, if_neg fun he => hu he.1, setError_thread, if_neg hu]
  have hlist : ((k.setError k.current rtEok).rtThreadSuspend k.current).suspendThread =
      k.suspendThread := by
    rw [rtThreadSuspend_suspendThread, setError_suspendThread]
  have hcur : ((k.setError k.current rtEok).rtThreadSuspend k.current).current = k.current := by
    rw [rtThreadSuspend_current, setError_current]
  unfold suspendFront
  simp only [hself, hl, hlist]
  refine ⟨_, if_neg (by simp), ?_⟩
  split
  · refine ⟨?_, hcur, fun u hu => ?_,
      by simp only [startTimer_suspendThread, Function.update_self]⟩
    · rw [startTimer_thread, if_pos rfl]
      show (Kern.thread (Kern.setThread _ _ _) _).stat = _
      rw [setThread_thread, if_pos rfl]
    · rw [startTimer_thread, if_neg hu]
      show Kern.thread (Kern.setThread _ _ _) _ = _
      rw [setThread_thread, if_neg hu]
      exact hother u hu
  · refine ⟨?_, hcur, fun u hu => ?_, by simp only [Function.update_self]⟩
    · show (Kern.thread (Kern.setThread _ _ _) _).stat = _
      rw [setThread_thread, if_pos rfl]
    · show Kern.thread (Kern.setThread _ _ _) _ = _
      rw [setThread_thread, if_neg hu]
      exact hother u hu

/-- The three ends of a round of the loop of `rt_mp_alloc`. -/
theorem allocLoop_spec (h : Ledger s free) (hr : (s.kern.thread s.kern.current).stat = .ready)
    (hl : (s.kern.thread s.kern.current).linked = false) (time : Int) (before : Nat) :
    ∃ s' free', allocLoop s time before = some s' ∧ Ledger s' free' ∧
      s'.woken = Function.update s.woken s.kern.current false ∧
      s'.kern.current = s.kern.current ∧
      (∀ u, u ≠ s.kern.current → s'.kern.thread u = s.kern.thread u ∧ s'.pc u = s.pc u) ∧
      ((s.mp.blockFreeCount ≠ 0 ∧ ∃ b, b ≠ 0 ∧ free = b :: free' ∧
          s'.held = (b, s.kern.current) :: s.held ∧ s'.pc s.kern.current = .done b ∧
          s'.kern = s.kern) ∨
        (s.mp.blockFreeCount = 0 ∧ free' = free ∧ s'.held = s.held ∧ time ≠ 0 ∧
          (∃ before', s'.pc s.kern.current = .allocWait time before') ∧
          (s'.kern.thread s.kern.current).stat = .suspend ∧
          s'.kern.suspendThread 0 = s.kern.current :: s.kern.suspendThread 0) ∨
        (s.mp.blockFreeCount = 0 ∧ free' = free ∧ s'.held = s.held ∧ time = 0 ∧
          s'.pc s.kern.current = .done 0 ∧ (s'.kern.thread s.kern.current).stat = .ready ∧
          (s'.kern.thread s.kern.current).linked = false ∧
          s'.kern.suspendThread = s.kern.suspendThread)) := by
  have hw : Ledger (s.setWoken s.kern.current false) free := h.congr rfl rfl rfl
  by_cases hc : s.mp.blockFreeCount = 0
  · by_cases ht : time = 0
    · refine ⟨((s.setWoken s.kern.current false).setKern
        (s.kern.setError s.kern.current (-rtEtimeout))).goto s.kern.current (.done 0), free, ?_,
        h.congr rfl rfl rfl, rfl, rfl, fun u hu => ⟨?_, Function.update_of_ne hu ..⟩,
        .inr (.inr ⟨hc, rfl, rfl, ht, Function.update_self .., ?_, ?_, rfl⟩)⟩
      · simp only [allocLoop, PoolSys.setWoken, hc, ht, if_true]
      · show (s.kern.setError s.kern.current (-rtEtimeout)).thread u = _
        rw [setError_thread, if_neg hu]
      · show ((s.kern.setError s.kern.current (-rtEtimeout)).thread s.kern.current).stat = _
        rw [setError_thread, if_pos rfl]
        exact hr
      · show ((s.kern.setError s.kern.current (-rtEtimeout)).thread s.kern.current).linked = _
        rw [setError_thread, if_pos rfl]
        exact hl
    · obtain ⟨k', hk, hst, hcur, hother, hlist⟩ := suspendFront_spec time hr hl
      refine ⟨((s.setWoken s.kern.current false).setKern k').goto s.kern.current
        (.allocWait time (if time > 0 then s.tick else before)), free, ?_, h.congr rfl rfl rfl, rfl,
        hcur, fun u hu => ⟨hother u hu, Function.update_of_ne hu ..⟩,
        .inr (.inl ⟨hc, rfl, rfl, ht, ⟨_, Function.update_self ..⟩, hst, hlist⟩)⟩
      simp only [allocLoop, PoolSys.setWoken, hc, ht, if_true, if_false, hk, Option.map_some]
  · obtain ⟨b, free', s', hfree, hb, htake, hled, hheld, hkern, hwok, hpc⟩ := hw.takeBlock hc
    refine ⟨s', free', ?_, hled, hwok, by rw [hkern]; rfl, fun u hu => ⟨by rw [hkern]; rfl, ?_⟩,
      .inl ⟨hc, b, hb, hfree, hheld, ?_, hkern⟩⟩
    · simp only [allocLoop]
      rw [if_neg (show ¬ (s.setWoken s.kern.current false).mp.blockFreeCount = 0 from hc)]
      exact htake
    · rw [hpc]
      exact Function.update_of_ne hu ..
    · rw [hpc]
      exact Function.update_self ..

namespace Threads

/-- A thread that is not in `rt_schedule` is ready, and on no list. -/
theorem ready (h : Threads s) (hp : ∀ time before, s.pc u ≠ .allocWait time before) :
    (s.kern.thread u).stat = .ready ∧ (s.kern.thread u).linked = false := by
  have hr : (s.kern.thread u).stat ≠ .suspend := fun hs => by
    obtain ⟨⟨time, before, hpc⟩, -⟩ := h.waits u hs
    exact hp time before hpc
  refine ⟨ready_of_ne hr, ?_⟩
  cases hl : (s.kern.thread u).linked with
  | false => rfl
  | true => exact absurd (h.linked u hl) hr

theorem allocLoop (h : Threads s) (hled : Ledger s free)
    (hp : ∀ time before, s.pc s.kern.current ≠ .allocWait time before)
    (hs : Pool.allocLoop s time before = some s') : (∃ free', Ledger s' free') ∧ Threads s' := by
  obtain ⟨hr, hl⟩ := h.ready hp
  obtain ⟨s1, free', hs1, hled', hwok, hcur, hother, hend⟩ :=
    allocLoop_spec hled hr hl time before
  rw [hs] at hs1
  obtain rfl := Option.some.inj hs1
  have hw : ∀ u, u ≠ s.kern.current → s'.woken u = s.woken u := fun u hu => by
    rw [hwok, Function.update_of_ne hu]
  refine ⟨⟨free', hled'⟩, fun u hu => ?_, fun u hu => ?_, fun u hu => ?_, fun u hu => ?_⟩
  · by_cases hc : u = s.kern.current
    · subst hc
      rcases hend with ⟨-, b, -, -, -, -, hk⟩ | ⟨-, -, -, -, ⟨before', hpc⟩, -, -⟩ |
        ⟨-, -, -, -, -, hst, -, -⟩
      · rw [hk, hr] at hu
        cases hu
      · refine ⟨⟨_, _, hpc⟩, ?_⟩
        rw [hwok, Function.update_self]
      · rw [hst] at hu
        cases hu
    · rw [(hother u hc).1] at hu
      rw [(hother u hc).2, hw u hc]
      exact h.waits u hu
  · by_cases hc : u = s.kern.current
    · subst hc
      rcases hend with ⟨-, b, -, -, -, -, hk⟩ | ⟨-, -, -, -, -, hst, -⟩ |
        ⟨-, -, -, -, -, -, hln, -⟩
      · rw [hk, hl] at hu
        cases hu
      · exact hst
      · rw [hln] at hu
        cases hu
    · rw [(hother u hc).1] at hu ⊢
      exact h.linked u hu
  · have hold : u ∈ s.kern.suspendThread 0 → (s'.kern.thread u).stat = .suspend := fun hm => by
      have hst := h.listed u hm
      have hc : u ≠ s.kern.current := fun hc => by
        rw [hc, hr] at hst
        cases hst
      rw [(hother u hc).1]
      exact hst
    rcases hend with ⟨-, b, -, -, -, -, hk⟩ | ⟨-, -, -, -, -, hst, hlist⟩ |
      ⟨-, -, -, -, -, -, -, hlist⟩
    · rw [hk] at hu
      exact hold hu
    · rw [hlist] at hu
      rcases List.mem_cons.mp hu with rfl | hu
      · exact hst
      · exact hold hu
    · rw [hlist] at hu
      exact hold hu
  · have hc : u ≠ s.kern.current := fun hc => by
      rw [hwok, hc, Function.update_self] at hu
      cases hu
    rw [hw u hc] at hu
    rw [(hother u hc).1, (hother u hc).2]
    exact h.woken u hu

theorem rtMpFree (h : Threads s) (hs : Pool.rtMpFree s b = some s') : Threads s' := by
  unfold Pool.rtMpFree at hs
  split at hs
  · simp only at hs
    split at hs
    · next u l hlist =>
      obtain rfl := Option.some.inj hs
      have hm : u ∈ s.kern.suspendThread 0 := by
        rw [hlist]
        exact List.mem_cons_self
      have hsu := h.listed u hm
      have hthr : ∀ v, ((s.kern.setError u rtEok).rtThreadResume u).thread v = if v = u then
          { s.kern.thread u with
            error := rtEok, stat := .ready, timer := false, linked := false }
          else s.kern.thread v := fun v => by
        rw [rtThreadResume_thread]
        by_cases hv : v = u
        · subst hv
          simp [hsu]
        · rw [if_neg fun he => hv he.1, setError_thread, if_neg hv, if_neg hv]
      have hmem : ∀ v, v ∈ ((s.kern.setError u rtEok).rtThreadResume u).suspendThread 0 →
          v ∈ s.kern.suspendThread 0 ∧ v ≠ u := fun v hv => by
        obtain ⟨h1, h2⟩ := mem_rtThreadResume.mp hv
        rw [setError_suspendThread] at h1
        refine ⟨h1, fun he => h2 he ?_⟩
        rw [setError_thread, if_pos rfl]
        exact hsu
      have hwok : ∀ v, v ≠ u → Function.update s.woken u true v = s.woken v := fun v hv =>
        Function.update_of_ne hv ..
      refine ⟨fun v hv => ?_, fun v hv => ?_, fun v hv => ?_, fun v hv => ?_⟩
      · change (((s.kern.setError u rtEok).rtThreadResume u).thread v).stat = _ at hv
        rw [hthr] at hv
        split at hv
        · cases hv
        · next hne =>
          show _ ∧ Function.update s.woken u true v = false
          rw [hwok v hne]
          exact h.waits v hv
      · change (((s.kern.setError u rtEok).rtThreadResume u).thread v).linked = _ at hv
        show (((s.kern.setError u rtEok).rtThreadResume u).thread v).stat = _
        rw [hthr] at hv ⊢
        split at hv
        · cases hv
        · next hne =>
          rw [if_neg hne]
          exact h.linked v hv
      · obtain ⟨hv, hne⟩ := hmem v hv
        show (((s.kern.setError u rtEok).rtThreadResume u).thread v).stat = _
        rw [hthr, if_neg hne]
        exact h.listed v hv
      · show (((s.kern.setError u rtEok).rtThreadResume u).thread v).stat = _ ∧
          ((∃ time before, s.pc v = .allocWait time before ∧
            (((s.kern.setError u rtEok).rtThreadResume u).thread v).error = rtEok) ∨
            ∃ time before, s.pc v = .allocAgain time before)
        rw [hthr]
        by_cases hne : v = u
        · subst hne
          rw [if_pos rfl]
          obtain ⟨⟨time, before, hpc⟩, -⟩ := h.waits v hsu
          exact ⟨rfl, .inl ⟨time, before, hpc, rfl⟩⟩
        · rw [if_neg hne]
          change Function.update s.woken u true v = true at hv
          rw [hwok v hne] at hv
          exact h.woken v hv
    · obtain rfl := Option.some.inj hs
      exact ⟨h.waits, h.linked, h.listed, h.woken⟩
  · cases hs

/-- The current thread, which is not suspended, goes on to `p`. -/
theorem goto (h : Threads s) (hr : (s.kern.thread s.kern.current).stat = .ready) {p : Pc}
    (hw : s.woken s.kern.current = true → ∃ time before, p = .allocAgain time before) :
    Threads (s.goto s.kern.current p) := by
  refine ⟨fun u hu => ?_, h.linked, h.listed, fun u hu => ?_⟩
  · have hc : u ≠ s.kern.current := fun hc => by
      change (s.kern.thread u).stat = .suspend at hu
      rw [hc, hr] at hu
      cases hu
    show (∃ time before, Function.update s.pc s.kern.current p u = _) ∧ _
    rw [Function.update_of_ne hc]
    exact h.waits u hu
  · show _ ∧ ((∃ time before, Function.update s.pc s.kern.current p u = _ ∧ _) ∨
      ∃ time before, Function.update s.pc s.kern.current p u = _)
    by_cases hc : u = s.kern.current
    · subst hc
      rw [Function.update_self]
      obtain ⟨time, before, hp⟩ := hw hu
      exact ⟨hr, .inr ⟨time, before, hp⟩⟩
    · rw [Function.update_of_ne hc]
      exact h.woken u hu

theorem timeout (h : Threads s) {k : Kern} (hk : s.kern.rtThreadTimeout u = some k) :
    Threads (s.setKern k) := by
  obtain ⟨hst, -, -, hthr, hlist⟩ := rtThreadTimeout_some hk
  obtain ⟨hpc, hw⟩ := h.waits u hst
  refine ⟨fun v hv => ?_, fun v hv => ?_, fun v hv => ?_, fun v hv => ?_⟩
  · change (k.thread v).stat = _ at hv
    rw [hthr] at hv
    split at hv
    · cases hv
    · exact h.waits v hv
  · change (k.thread v).linked = _ at hv
    show (k.thread v).stat = _
    rw [hthr] at hv ⊢
    split at hv
    · cases hv
    · next hne =>
      rw [if_neg hne]
      exact h.linked v hv
  · change v ∈ k.suspendThread 0 at hv
    rw [hlist] at hv
    obtain ⟨hv, hne⟩ := List.mem_filter.mp hv
    show (k.thread v).stat = _
    rw [hthr, if_neg (of_decide_eq_true hne)]
    exact h.listed v hv
  · have hne : v ≠ u := fun he => by
      change s.woken v = true at hv
      rw [he, hw] at hv
      cases hv
    show (k.thread v).stat = _ ∧ ((∃ time before, _ ∧ (k.thread v).error = _) ∨ _)
    rw [hthr, if_neg hne]
    exact h.woken v hv

end Threads

/-! ## Runs -/

/-- What every step keeps. -/
structure Safe (s : PoolSys) : Prop where
  ledger : ∃ free, Ledger s free
  threads : Threads s

namespace Safe

theorem goOn (h : Safe s) (hs : Pool.goOn s = some s') : Safe s' := by
  obtain ⟨⟨free, hled⟩, hthr⟩ := h
  have hpc : ∀ p, s.pc s.kern.current = p → (∀ time before, p ≠ .allocWait time before) →
      ∀ time before, s.pc s.kern.current ≠ .allocWait time before := fun p he hp time before =>
    he ▸ hp time before
  -- a thread that a free resumed is where it waited or behind that
  have hwok : s.woken s.kern.current = true → (∃ time before,
      s.pc s.kern.current = .allocWait time before ∧
        (s.kern.thread s.kern.current).error = rtEok) ∨
      ∃ time before, s.pc s.kern.current = .allocAgain time before :=
    fun hw => (hthr.woken _ hw).2
  unfold Pool.goOn at hs
  simp only at hs
  split at hs
  · cases hs
  · next time before hp =>
    split at hs
    · next hr =>
      split at hs
      · next herr =>
        rw [← Option.some.inj hs]
        refine ⟨⟨free, hled.congr rfl rfl rfl⟩, hthr.goto hr fun hw => ?_⟩
        rcases hwok hw with ⟨_, _, -, he⟩ | ⟨_, _, hp'⟩
        · exact absurd he herr
        · rw [hp] at hp'
          cases hp'
      · rw [← Option.some.inj hs]
        exact ⟨⟨free, hled.congr rfl rfl rfl⟩, hthr.goto hr fun _ => ⟨time, before, rfl⟩⟩
    · cases hs
  · next time before hp =>
    obtain ⟨hl, ht⟩ := hthr.allocLoop hled (hpc _ hp fun _ _ he => by cases he) hs
    exact ⟨hl, ht⟩
  · next b hp =>
    have hr := (hthr.ready (u := s.kern.current) (hpc _ hp fun _ _ he => by cases he)).1
    rw [← Option.some.inj hs]
    refine ⟨⟨free, hled.congr rfl rfl rfl⟩, hthr.goto hr fun hw => ?_⟩
    rcases hwok hw with ⟨_, _, hp', -⟩ | ⟨_, _, hp'⟩ <;> rw [hp] at hp' <;> cases hp'

theorem step (h : Safe s) (hs : poolStep s act = some s') : Safe s' := by
  obtain ⟨⟨free, hled⟩, hthr⟩ := h
  cases act with
  | preempt u =>
    simp only [poolStep] at hs
    split at hs
    · rw [← Option.some.inj hs]
      exact ⟨⟨free, hled.congr rfl rfl rfl⟩, hthr.waits, hthr.linked, hthr.listed, hthr.woken⟩
    · cases hs
  | alloc time =>
    simp only [poolStep] at hs
    split at hs
    · next hp =>
      have hpc : ∀ time before, s.pc s.kern.current ≠ .allocWait time before := fun _ _ he => by
        rw [hp] at he
        cases he
      obtain ⟨hl, ht⟩ := hthr.allocLoop hled hpc hs
      exact ⟨hl, ht⟩
    · cases hs
  | free b u =>
    simp only [poolStep] at hs
    split at hs
    · split at hs
      · next hc =>
        have hm : (b, u) ∈ s.held := List.contains_iff_mem.mp hc
        obtain ⟨s1, hf, rfl⟩ := Option.map_eq_some_iff.mp hs
        have ht := hthr.rtMpFree hf
        refine ⟨⟨b :: free, ?_⟩, ht.waits, ht.linked, ht.listed, ht.woken⟩
        unfold Pool.rtMpFree at hf
        rw [if_pos (hled.owner _ hm)] at hf
        simp only at hf
        split at hf
        · rw [← Option.some.inj hf]
          exact hled.giveBack hm rfl rfl rfl
        · rw [← Option.some.inj hf]
          exact hled.giveBack hm rfl rfl rfl
      · cases hs
    · cases hs
  | goOn => exact goOn ⟨⟨free, hled⟩, hthr⟩ hs
  | timeout u =>
    obtain ⟨k, hk, rfl⟩ := Option.map_eq_some_iff.mp hs
    exact ⟨⟨free, hled.congr rfl rfl rfl⟩, hthr.timeout hk⟩
  | tick =>
    rw [← Option.some.inj hs]
    exact ⟨⟨free, hled.congr rfl rfl rfl⟩, hthr.waits, hthr.linked, hthr.listed, hthr.woken⟩

end Safe

/-! ## `rt_mp_init` -/

section Init

variable {header : Nat → Nat} {start stride m j : Nat}

/-- The loop links block after block. -/
theorem linkBlocks_apply (hs : 0 < stride) (hj : j < m) :
    linkBlocks start stride header m (start + j * stride) = start + (j + 1) * stride := by
  induction m with
  | zero => omega
  | succ m ih =>
    unfold linkBlocks
    by_cases he : j = m
    · subst he
      exact Function.update_self ..
    · have hne : start + j * stride ≠ start + m * stride := fun h =>
        he (Nat.eq_of_mul_eq_mul_right hs (Nat.add_left_cancel h))
      rw [Function.update_of_ne hne]
      exact ih (by omega)

theorem chain_range {h : Nat → Nat} {n : Nat} (hstart : start ≠ 0)
    (hlink : ∀ i, j ≤ i → i < j + n → h (start + i * stride) = start + (i + 1) * stride)
    (hlast : h (start + (j + n) * stride) = 0) :
    Chain.IsChain (fun b => ptr (h b)) (ptr (start + j * stride))
      ((List.range' j (n + 1)).map fun i => start + i * stride) := by
  have hptr : ∀ i, ptr (start + i * stride) = some (start + i * stride) := fun i =>
    ptr_eq_some.mpr ⟨rfl, by omega⟩
  induction n generalizing j with
  | zero =>
    refine ⟨hptr j, ?_⟩
    rw [Nat.add_zero] at hlast
    show ptr (h (start + j * stride)) = none
    rw [hlast]
    rfl
  | succ n ih =>
    refine ⟨hptr j, ?_⟩
    show Chain.IsChain _ (ptr (h (start + j * stride))) _
    rw [hlink j (Nat.le_refl j) (by omega)]
    apply ih
    · intro i h1 h2
      exact hlink i (by omega) (by omega)
    · rw [← hlast]
      congr 3
      omega

end Init

variable {header : Nat → Nat} {self start : Nat} {size blockSize : BitVec 32}
  {priority : Nat → Nat}

theorem Safe.init (hstart : start ≠ 0)
    (hcount : (rtMpInit header self start size blockSize).1.blockTotalCount ≠ 0) :
    Safe (poolInit header self start size blockSize priority) := by
  obtain ⟨n, hn⟩ := Nat.exists_eq_succ_of_ne_zero hcount
  have hn' : rtAlignDown size.toNat / add32 (rtAlign blockSize.toNat) 4 = n + 1 := hn
  have hs : 0 < add32 (rtAlign blockSize.toNat) 4 := by
    apply Nat.pos_of_ne_zero
    intro h0
    rw [h0, Nat.div_zero] at hn'
    omega
  have hsmall : n + 1 < 2 ^ 32 := by
    have h1 := Nat.div_le_self (rtAlignDown size.toNat) (add32 (rtAlign blockSize.toNat) 4)
    have h2 := size.isLt
    rw [hn'] at h1
    unfold rtAlignDown at h1
    omega
  generalize hst : add32 (rtAlign blockSize.toNat) 4 = stride at hn' hs
  have hblocks : blocks (poolInit header self start size blockSize priority).mp =
      (List.range' 0 (n + 1)).map fun i => start + i * stride := by
    have hl : (poolInit header self start size blockSize priority).mp.blockTotalCount = n + 1 := hn
    unfold blocks
    rw [hl, ← List.range_eq_range', ← hst]
    rfl
  have hheader : (poolInit header self start size blockSize priority).header =
      Function.update (linkBlocks start stride header (n + 1)) (start + n * stride) 0 := by
    show Function.update (linkBlocks start _ header _) _ _ = _
    rw [hst, hn', Nat.add_sub_cancel]
  have hinj : Function.Injective fun i => start + i * stride := fun i j h =>
    Nat.eq_of_mul_eq_mul_right hs (Nat.add_left_cancel h)
  refine ⟨⟨(List.range' 0 (n + 1)).map fun i => start + i * stride, ?_, ?_, ?_,
    fun p hp => absurd hp List.not_mem_nil, fun b hb => ?_, ?_, ?_⟩,
    ⟨fun u hu => (by cases hu), fun u hu => (by cases hu), fun u hu => absurd hu List.not_mem_nil,
    fun u hu => (by cases hu)⟩⟩
  · have hc : Chain.IsChain (fun b => ptr
        (Function.update (linkBlocks start stride header (n + 1)) (start + n * stride) 0 b))
        (ptr (start + 0 * stride)) ((List.range' 0 (n + 1)).map fun i => start + i * stride) := by
      apply chain_range hstart
      · intro i _ hi
        have hne : start + i * stride ≠ start + n * stride := fun h => by
          have := hinj h
          omega
        rw [Function.update_of_ne hne]
        exact linkBlocks_apply hs (by omega)
      · rw [Nat.zero_add]
        exact Function.update_self ..
    rw [hheader]
    rw [Nat.zero_mul, Nat.add_zero] at hc
    exact hc
  · rw [List.length_map, List.length_range']
    exact hn.symm
  · rw [hblocks]
    show (_ ++ []).Perm _
    rw [List.append_nil]
  · rw [hblocks] at hb
    obtain ⟨i, -, rfl⟩ := List.mem_map.mp hb
    omega
  · rw [hblocks]
    exact (List.nodup_range').map hinj
  · show (rtMpInit header self start size blockSize).1.blockTotalCount < 2 ^ 32
    rw [hn]
    exact hsmall

/-- What a thread that a free resumed does when it runs: it gets a block, or waits again, or its
time is up and there is no block. -/
structure Served (s : PoolSys) (u : Nat) : Prop where
  goesOn : ∀ time before, s.pc u = .allocWait time before →
    goOn s = some (s.goto u (.allocAgain time before))
  ends : ∀ time before, s.pc u = .allocAgain time before → ∃ s', goOn s = some s' ∧
    ((∃ b, b ≠ 0 ∧ s'.pc u = .done b ∧ s'.held = (b, u) :: s.held) ∨
      (s.mp.blockFreeCount = 0 ∧ s'.held = s.held ∧
        (∃ time' before', s'.pc u = .allocWait time' before') ∧ u ∈ s'.kern.suspendThread 0) ∨
      (s.mp.blockFreeCount = 0 ∧ s'.held = s.held ∧ restTime time before s.tick = 0 ∧
        s'.pc u = .done 0))

theorem Safe.served (h : Safe s) (hu : s.kern.current = u) (hw : s.woken u = true) :
    Served s u := by
  subst hu
  obtain ⟨⟨free, hled⟩, hthr⟩ := h
  obtain ⟨hr, hpc⟩ := hthr.woken _ hw
  refine ⟨fun time before hp => ?_, fun time before hp => ?_⟩
  · have herr : (s.kern.thread s.kern.current).error = rtEok := by
      rcases hpc with ⟨_, _, -, he⟩ | ⟨_, _, hp'⟩
      · exact he
      · rw [hp] at hp'
        cases hp'
    unfold Pool.goOn
    simp only [hp, hr, herr, if_true]
    rw [if_neg (fun h => h rfl)]
  · have hne : ∀ time before, s.pc s.kern.current ≠ .allocWait time before := fun _ _ he => by
      rw [hp] at he
      cases he
    obtain ⟨hr, hl⟩ := hthr.ready hne
    obtain ⟨s', free', hs, -, -, -, -, hend⟩ :=
      allocLoop_spec hled hr hl (restTime time before s.tick) before
    refine ⟨s', ?_, ?_⟩
    · unfold Pool.goOn
      simp only [hp]
      exact hs
    · rcases hend with ⟨-, b, hb, -, hheld, hpc', -⟩ | ⟨hc, -, hheld, -, ⟨b, hpc'⟩, -, hlist⟩ |
        ⟨hc, -, hheld, ht, hpc', -⟩
      · exact .inl ⟨b, hb, hpc', hheld⟩
      · refine .inr (.inl ⟨hc, hheld, ⟨_, b, hpc'⟩, ?_⟩)
        rw [hlist]
        exact List.mem_cons_self
      · exact .inr (.inr ⟨hc, hheld, ht, hpc'⟩)

/-- In every state of every run from `rt_mp_init` on, each block of the pool is in the free list or
held by one caller, and the list has `block_free_count` blocks. A thread that a free resumed is
still in `rt_mp_alloc`, and when it runs it gets a block, waits again, or returns `NULL` because its
time is up and no block is free. -/
theorem pool_conserved {as : List PoolAct} (hstart : start ≠ 0)
    (hcount : (rtMpInit header self start size blockSize).1.blockTotalCount ≠ 0)
    (hx : exec poolStep (poolInit header self start size blockSize priority) as = some s) :
    (∃ free, Conserved s free) ∧ ∀ u, s.woken u = true →
      ((∃ time before, s.pc u = .allocWait time before) ∨
        ∃ time before, s.pc u = .allocAgain time before) ∧ (s.kern.current = u → Served s u) := by
  have h : Safe s := exec_inv (fun _ _ _ h hs => h.step hs) hx (.init hstart hcount)
  obtain ⟨free, hled⟩ := h.ledger
  refine ⟨⟨free, hled.conserved⟩, fun u hw => ⟨?_, fun hu => h.served hu hw⟩⟩
  obtain ⟨-, ⟨time, before, hp, -⟩ | ⟨time, before, hp⟩⟩ := h.threads.woken u hw
  · exact .inl ⟨time, before, hp⟩
  · exact .inr ⟨time, before, hp⟩

/-- The thread 1 waits one tick for the only block, is resumed by the free of thread 0, and finds
the block taken again. -/
def lateRun : List PoolAct :=
  [.alloc 0, .goOn, .preempt 1, .alloc 1, .preempt 0, .free 4096 0, .alloc 0, .tick, .preempt 1]

/-- One block of 8 bytes. -/
def onePool : PoolSys := poolInit (fun _ => 0) 64 4096 12 8 fun _ => 10

theorem pool_conserved_sample : ∃ s, exec poolStep onePool lateRun = some s ∧
    s.woken 1 = true ∧ (∃ free, Conserved s free) ∧ Served s 1 := by
  have hx : (exec poolStep onePool lateRun).map (fun s => (s.woken 1, s.kern.current)) =
      some (true, 1) := by decide
  obtain ⟨s, hx, ho⟩ := Option.map_eq_some_iff.mp hx
  simp only [Prod.mk.injEq] at ho
  obtain ⟨hc, hall⟩ := pool_conserved (by decide) (by decide) hx
  exact ⟨s, hx, ho.1, hc, (hall 1 ho.1).2 ho.2⟩

/-- A resumed waiter returns without a block, and does not wait again. -/
theorem resumed_fails : ∃ s s', exec poolStep onePool lateRun = some s ∧ s.woken 1 = true ∧
    exec poolStep s [.goOn, .goOn] = some s' ∧ s'.pc 1 = .done 0 ∧
    s'.kern.suspendThread 0 = [] := by
  have hx : (exec poolStep onePool lateRun).map (fun s => s.woken 1) = some true := by decide
  have hy : ((exec poolStep onePool lateRun).bind fun s => exec poolStep s [.goOn, .goOn]).map
      (fun s => (s.pc 1, s.kern.suspendThread 0)) = some (.done 0, []) := by decide
  obtain ⟨s, hx, hw⟩ := Option.map_eq_some_iff.mp hx
  rw [hx] at hy
  obtain ⟨s', hs', ho⟩ := Option.map_eq_some_iff.mp hy
  simp only [Prod.mk.injEq] at ho
  exact ⟨s, s', hx, hw, hs', ho.1, ho.2⟩

end Tudu.Pool
