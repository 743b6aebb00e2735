import Mathlib.Data.List.Nodup
import Mathlib.Data.List.Perm.Subperm
import TuduOS.Kernel.Def
import TuduOS.Lib.Lts
import TuduOS.Lib.Runs

/-!
# The ring block buffer (`ringblk_buf.c`)

* A block is its index in `blk_set`, and `buf` an address; the buffer ends below 2^32.
* `blk_list` is the list of the indices. A block that is taken off it keeps its `next`, so the loop
  of `rt_rbb_blk_queue_get` goes through the list as it was.
* A call without a next state: an `RT_ASSERT` fails, or a pointer leads out of `blk_set`.

`rt_rbb_blk_queue_get` takes blocks off the list that are still in use, and `rt_rbb_blk_alloc` looks
at the list only. `blocks_apart_iff` says when this makes two blocks overlap.
-/

namespace Tudu.RingBlk

open Lts Runs

/-- `enum rt_rbb_status` -/
inductive Status where
  | unused | inited | put | get
  deriving DecidableEq

structure RtRbbBlk where
  status : Status
  size : Nat
  buf : Nat
  deriving DecidableEq

structure RtRbb where
  buf : Nat
  bufSize : Nat
  blkSet : Nat → RtRbbBlk
  blkMaxNum : Nat
  blkList : List Nat

structure BlkQueue where
  /-- `blocks`, as the index of the first block -/
  blocks : Nat
  blkNum : Nat

def rtRbbInit (buf bufSize : Nat) (blockSet : Nat → RtRbbBlk) (blkMaxNum : Nat) : RtRbb where
  buf := buf
  bufSize := bufSize
  blkSet := fun i =>
    if i < blkMaxNum then { blockSet i with status := .unused } else blockSet i
  blkMaxNum := blkMaxNum
  blkList := []

namespace RtRbb

def setStatus (rbb : RtRbb) (i : Nat) (x : Status) : RtRbb :=
  { rbb with blkSet := Function.update rbb.blkSet i { rbb.blkSet i with status := x } }

def findEmptyBlkInSet (rbb : RtRbb) : Option Nat :=
  (List.range rbb.blkMaxNum).find? fun i => decide ((rbb.blkSet i).status = .unused)

/-- The block `i` becomes one of `size` bytes at `a`, and goes to the end of the list. -/
def initBlk (rbb : RtRbb) (i a size : Nat) : RtRbb :=
  { rbb with
    blkSet := Function.update rbb.blkSet i ⟨.inited, size, a⟩
    blkList := rbb.blkList ++ [i] }

def rtRbbBlkAlloc (rbb : RtRbb) (blkSize : Nat) : Option (RtRbb × Option Nat) :=
  if blkSize < 16777216 then
    match rbb.findEmptyBlkInSet with
    | none => some (rbb, none)
    | some newRbb =>
      if rbb.blkList.length < rbb.blkMaxNum then
        match rbb.blkList.head?, rbb.blkList.getLast? with
        | some h, some t =>
          let head := rbb.blkSet h
          let tail := rbb.blkSet t
          if head.buf ≤ tail.buf then
            let empty1 := sub32 (add32 rbb.buf rbb.bufSize) (add32 tail.buf tail.size)
            let empty2 := sub32 head.buf rbb.buf
            if empty1 ≥ blkSize then
              some (rbb.initBlk newRbb (add32 tail.buf tail.size) blkSize, some newRbb)
            else if empty2 ≥ blkSize then
              some (rbb.initBlk newRbb rbb.buf blkSize, some newRbb)
            else some (rbb, none)
          else
            let empty1 := sub32 head.buf (add32 tail.buf tail.size)
            if empty1 ≥ blkSize then
              some (rbb.initBlk newRbb (add32 tail.buf tail.size) blkSize, some newRbb)
            else some (rbb, none)
        | _, _ => some (rbb.initBlk newRbb rbb.buf blkSize, some newRbb)
      else some (rbb, none)
  else none

def rtRbbBlkPut (rbb : RtRbb) (block : Nat) : Option RtRbb :=
  if (rbb.blkSet block).status = .inited then some (rbb.setStatus block .put) else none

def rtRbbBlkGet (rbb : RtRbb) : RtRbb × Option Nat :=
  match rbb.blkList.find? fun i => decide ((rbb.blkSet i).status = .put) with
  | some block => (rbb.setStatus block .get, some block)
  | none => (rbb, none)

/-- `rt_slist_remove(&rbb->blk_list, &block->list)`, and the new status. -/
def unlink (rbb : RtRbb) (block : Nat) (x : Status) : RtRbb :=
  { rbb.setStatus block x with blkList := rbb.blkList.erase block }

def rtRbbBlkFree (rbb : RtRbb) (block : Nat) : Option RtRbb :=
  if (rbb.blkSet block).status ≠ .unused then some (rbb.unlink block .unused) else none

/-- The loop of `rt_rbb_blk_queue_get` over the nodes that are left. -/
def queueGetLoop (queueDataLen : Nat) :
    List Nat → RtRbb → Option Nat → Nat → BlkQueue → RtRbb × Nat × BlkQueue
  | [], rbb, _, total, q => (rbb, total, q)
  | node :: rest, rbb, none, total, q =>
    if (rbb.blkSet node).status = .put then
      queueGetLoop queueDataLen rest (rbb.unlink node .get) (some node)
        (add32 total (rbb.blkSet node).size) ⟨node, 1⟩
    else queueGetLoop queueDataLen rest rbb none total q
  | node :: rest, rbb, some lastBlock, total, q =>
    if (rbb.blkSet node).status ≠ .put ∨ (rbb.blkSet lastBlock).buf > (rbb.blkSet node).buf ∨
        add32 total (rbb.blkSet node).size > queueDataLen then (rbb, total, q)
    else
      queueGetLoop queueDataLen rest (rbb.unlink node .get) (some node)
        (add32 total (rbb.blkSet node).size) ⟨q.blocks, q.blkNum + 1⟩

/-- The buffer, the total size, and the queue, which is `q` before. -/
def rtRbbBlkQueueGet (rbb : RtRbb) (queueDataLen : Nat) (q : BlkQueue) : RtRbb × Nat × BlkQueue :=
  queueGetLoop queueDataLen rbb.blkList rbb none 0 q

/-- The first rounds of the loop of `rt_rbb_blk_queue_free`. -/
def queueFreeLoop (rbb : RtRbb) (blocks : Nat) : Nat → Option RtRbb
  | 0 => some rbb
  | i + 1 =>
    (queueFreeLoop rbb blocks i).bind fun rbb =>
      if blocks + i < rbb.blkMaxNum then rbb.rtRbbBlkFree (blocks + i) else none

def rtRbbBlkQueueFree (rbb : RtRbb) (q : BlkQueue) : Option RtRbb :=
  queueFreeLoop rbb q.blocks q.blkNum

end RtRbb

open RtRbb

inductive Act where
  | alloc (blkSize : Nat)
  | put (block : Nat)
  | get
  | free (block : Nat)
  | queueGet (queueDataLen : Nat) (q : BlkQueue)
  | queueFree (q : BlkQueue)

def rbbStep (rbb : RtRbb) : Act → Option RtRbb
  | .alloc blkSize =>
    if 1 ≤ blkSize ∧ blkSize ≤ rbb.bufSize then (rbb.rtRbbBlkAlloc blkSize).map Prod.fst else none
  | .put block => if block < rbb.blkMaxNum then rbb.rtRbbBlkPut block else none
  | .get => some rbb.rtRbbBlkGet.1
  | .free block => if block < rbb.blkMaxNum then rbb.rtRbbBlkFree block else none
  | .queueGet queueDataLen q => some (rbb.rtRbbBlkQueueGet queueDataLen q).1
  | .queueFree q => rbb.rtRbbBlkQueueFree q

/-! ## The property -/

/-- A block of the set that is in use. -/
def Live (rbb : RtRbb) (i : Nat) : Prop :=
  i < rbb.blkMaxNum ∧ (rbb.blkSet i).status ≠ .unused

/-- The bytes of a block. -/
def run (rbb : RtRbb) (i : Nat) : Run := ((rbb.blkSet i).buf, (rbb.blkSet i).size)

/-- The blocks in use lie in the buffer and are disjoint. -/
structure BlocksApart (rbb : RtRbb) : Prop where
  within : ∀ i, Live rbb i → Within rbb.buf (rbb.buf + rbb.bufSize) (run rbb i)
  apart : ∀ i j, Live rbb i → Live rbb j → i ≠ j → Apart (run rbb i) (run rbb j)

/-- A list in place of the next `n` bytes at `a`, as far as the first and the last block of the list
say. -/
inductive Place (rbb : RtRbb) (n : Nat) : Nat → Prop where
  | empty (h : rbb.blkList = []) : Place rbb n rbb.buf
  | behind {h t : Nat} (hh : rbb.blkList.head? = some h) (ht : rbb.blkList.getLast? = some t)
      (ho : (rbb.blkSet h).buf ≤ (rbb.blkSet t).buf)
      (hn : (rbb.blkSet t).buf + (rbb.blkSet t).size + n ≤ rbb.buf + rbb.bufSize) :
      Place rbb n ((rbb.blkSet t).buf + (rbb.blkSet t).size)
  | turn {h t : Nat} (hh : rbb.blkList.head? = some h) (ht : rbb.blkList.getLast? = some t)
      (ho : (rbb.blkSet h).buf ≤ (rbb.blkSet t).buf)
      (hf : rbb.buf + rbb.bufSize < (rbb.blkSet t).buf + (rbb.blkSet t).size + n)
      (hn : rbb.buf + n ≤ (rbb.blkSet h).buf) : Place rbb n rbb.buf
  | gap {h t : Nat} (hh : rbb.blkList.head? = some h) (ht : rbb.blkList.getLast? = some t)
      (ho : (rbb.blkSet t).buf < (rbb.blkSet h).buf)
      (hn : (rbb.blkSet t).buf + (rbb.blkSet t).size + n ≤ (rbb.blkSet h).buf) :
      Place rbb n ((rbb.blkSet t).buf + (rbb.blkSet t).size)

/-- Where an allocation has a block and a place, the blocks in use that are not on the list are
apart from the place. -/
def Clear (rbb : RtRbb) (act : Act) : Prop :=
  ∀ n a, act = .alloc n → (∃ k, k < rbb.blkMaxNum ∧ (rbb.blkSet k).status = .unused) →
    Place rbb n a → ∀ i, Live rbb i → i ∉ rbb.blkList → Apart (run rbb i) (a, n)

variable {rbb rbb' : RtRbb} {act : Act} {i j k n a : Nat}

/-! ## The invariant -/

/-- What holds in every run. -/
structure Inv (rbb : RtRbb) : Prop where
  small : rbb.buf + rbb.bufSize < 4294967296
  listed : ∀ i ∈ rbb.blkList, Live rbb i
  nodup : rbb.blkList.Nodup
  /-- The list goes around the ring. -/
  around : Around (rbb.blkList.map (run rbb))
  pos : ∀ i, Live rbb i → 0 < (rbb.blkSet i).size
  within : ∀ i, Live rbb i → Within rbb.buf (rbb.buf + rbb.bufSize) (run rbb i)

/-- The blocks are where they were, and no other one is in use. -/
structure Smaller (rbb rbb' : RtRbb) : Prop where
  buf : rbb'.buf = rbb.buf
  bufSize : rbb'.bufSize = rbb.bufSize
  maxNum : rbb'.blkMaxNum = rbb.blkMaxNum
  run : ∀ i, run rbb' i = run rbb i
  live : ∀ i, Live rbb' i → Live rbb i

theorem Smaller.refl (rbb : RtRbb) : Smaller rbb rbb :=
  ⟨rfl, rfl, rfl, fun _ => rfl, fun _ h => h⟩

theorem Smaller.trans {r : RtRbb} (h : Smaller rbb r) (h' : Smaller r rbb') : Smaller rbb rbb' :=
  ⟨h'.buf.trans h.buf, h'.bufSize.trans h.bufSize, h'.maxNum.trans h.maxNum,
    fun i => (h'.run i).trans (h.run i), fun i hi => h.live i (h'.live i hi)⟩

theorem BlocksApart.smaller (h : BlocksApart rbb) (hs : Smaller rbb rbb') : BlocksApart rbb' := by
  refine ⟨fun i hi => ?_, fun i j hi hj hij => ?_⟩
  · rw [hs.run, hs.buf, hs.bufSize]
    exact h.within i (hs.live i hi)
  · rw [hs.run, hs.run]
    exact h.apart i j (hs.live i hi) (hs.live j hj) hij

theorem Inv.smaller (h : Inv rbb) (hs : Smaller rbb rbb')
    (hl : rbb'.blkList.Sublist rbb.blkList) (hk : ∀ i ∈ rbb'.blkList, Live rbb' i) : Inv rbb' := by
  have hrun : rbb'.blkList.map (run rbb') = rbb'.blkList.map (run rbb) :=
    List.map_congr_left fun i _ => hs.run i
  refine ⟨?_, hk, hl.nodup h.nodup, ?_, fun i hi => ?_, fun i hi => ?_⟩
  · rw [hs.buf, hs.bufSize]
    exact h.small
  · rw [hrun]
    exact h.around.sublist (hl.map (run rbb))
  · have hr := congrArg Prod.snd (hs.run i)
    show 0 < (run rbb' i).2
    rw [hr]
    exact h.pos i (hs.live i hi)
  · rw [hs.run, hs.buf, hs.bufSize]
    exact h.within i (hs.live i hi)

theorem setStatus_blkSet {x : Status} : (rbb.setStatus i x).blkSet j =
    if j = i then { rbb.blkSet i with status := x } else rbb.blkSet j := by
  simp only [setStatus, Function.update_apply]

/-- A block in use gets another status. -/
theorem smaller_setStatus {x : Status} (hi : Live rbb i) : Smaller rbb (rbb.setStatus i x) := by
  refine ⟨rfl, rfl, rfl, fun j => ?_, fun j hj => ?_⟩
  · unfold run
    rw [setStatus_blkSet]
    split
    · next hji => rw [hji]
    · rfl
  · obtain ⟨hm, hst⟩ := hj
    rw [setStatus_blkSet] at hst
    split at hst
    · next hji =>
      rw [hji]
      exact hi
    · exact ⟨hm, hst⟩

theorem live_setStatus {x : Status} (hj : Live rbb j) (hx : j = i → x ≠ .unused) :
    Live (rbb.setStatus i x) j := by
  refine ⟨hj.1, ?_⟩
  rw [setStatus_blkSet]
  split
  · next hji => exact hx hji
  · exact hj.2

theorem Inv.setStatus {x : Status} (h : Inv rbb) (hi : Live rbb i) (hx : x ≠ .unused) :
    Inv (rbb.setStatus i x) ∧ Smaller rbb (rbb.setStatus i x) := by
  have hs := smaller_setStatus (x := x) hi
  exact ⟨h.smaller hs (List.Sublist.refl _) fun j hj => live_setStatus (h.listed j hj)
    fun _ => hx, hs⟩

theorem Inv.unlink {x : Status} (h : Inv rbb) (hi : Live rbb i) :
    Inv (rbb.unlink i x) ∧ Smaller rbb (rbb.unlink i x) := by
  obtain ⟨h1, h2, h3, h4, h5⟩ := smaller_setStatus (x := x) hi
  have hs : Smaller rbb (rbb.unlink i x) := ⟨h1, h2, h3, h4, h5⟩
  refine ⟨h.smaller hs List.erase_sublist fun j hj => ?_, hs⟩
  obtain ⟨hne, hm⟩ := h.nodup.mem_erase_iff.mp hj
  exact live_setStatus (h.listed j hm) fun he => absurd he hne

theorem Inv.free (h : Inv rbb) (hi : i < rbb.blkMaxNum) (hs : rbb.rtRbbBlkFree i = some rbb') :
    Inv rbb' ∧ Smaller rbb rbb' := by
  unfold rtRbbBlkFree at hs
  split at hs
  · next hst =>
    obtain rfl := Option.some.inj hs
    exact h.unlink ⟨hi, hst⟩
  · cases hs

theorem Inv.queueGetLoop {len total : Nat} {last : Option Nat} {q : BlkQueue} {l : List Nat}
    (h : Inv rbb) (hl : ∀ i ∈ l, i < rbb.blkMaxNum) :
    Inv (RtRbb.queueGetLoop len l rbb last total q).1 ∧
      Smaller rbb (RtRbb.queueGetLoop len l rbb last total q).1 := by
  induction l generalizing rbb last total q with
  | nil => exact ⟨h, Smaller.refl rbb⟩
  | cons node l ih =>
    have hrest : ∀ i ∈ l, i < rbb.blkMaxNum := fun i hi => hl i (List.mem_cons_of_mem _ hi)
    -- the block `node` is taken off the list
    have htake : (rbb.blkSet node).status = .put → ∀ total q,
        Inv (RtRbb.queueGetLoop len l (rbb.unlink node .get) (some node) total q).1 ∧
          Smaller rbb (RtRbb.queueGetLoop len l (rbb.unlink node .get) (some node) total q).1 := by
      intro hput total q
      have hlive : Live rbb node := ⟨hl node List.mem_cons_self, by rw [hput]; simp⟩
      obtain ⟨h1, hs1⟩ := h.unlink (x := .get) hlive
      have hnext : Inv (RtRbb.queueGetLoop len l (rbb.unlink node .get) (some node) total q).1 ∧
          Smaller (rbb.unlink node .get)
            (RtRbb.queueGetLoop len l (rbb.unlink node .get) (some node) total q).1 := ih h1 hrest
      exact ⟨hnext.1, hs1.trans hnext.2⟩
    cases last with
    | none =>
      unfold RtRbb.queueGetLoop
      split
      · next hput => exact htake hput _ _
      · exact ih h hrest
    | some k =>
      unfold RtRbb.queueGetLoop
      split
      · exact ⟨h, Smaller.refl rbb⟩
      · next hne =>
        have hput : (rbb.blkSet node).status = .put := by
          by_contra hn
          exact hne (.inl hn)
        exact htake hput _ _

theorem Inv.queueFreeLoop {blocks : Nat} (h : Inv rbb)
    (hs : RtRbb.queueFreeLoop rbb blocks n = some rbb') : Inv rbb' ∧ Smaller rbb rbb' := by
  induction n generalizing rbb' with
  | zero =>
    obtain rfl := Option.some.inj hs
    exact ⟨h, Smaller.refl rbb⟩
  | succ n ih =>
    obtain ⟨r, hr, hs⟩ := Option.bind_eq_some_iff.mp hs
    obtain ⟨h1, hs1⟩ := ih hr
    split at hs
    · next hi =>
      obtain ⟨h2, hs2⟩ := h1.free hi hs
      exact ⟨h2, hs1.trans hs2⟩
    · cases hs

/-- Every operation but an allocation. -/
theorem Inv.other (h : Inv rbb) (ha : ∀ n, act ≠ .alloc n) (hs : rbbStep rbb act = some rbb') :
    Inv rbb' ∧ Smaller rbb rbb' := by
  cases act with
  | alloc n => exact absurd rfl (ha n)
  | put i =>
    simp only [rbbStep, rtRbbBlkPut] at hs
    split at hs
    · next hi =>
      split at hs
      · next hst =>
        obtain rfl := Option.some.inj hs
        exact h.setStatus ⟨hi, by rw [hst]; simp⟩ (by simp)
      · cases hs
    · cases hs
  | get =>
    simp only [rbbStep, rtRbbBlkGet] at hs
    obtain rfl := Option.some.inj hs
    split
    · next i hf => exact h.setStatus (h.listed i (List.mem_of_find?_eq_some hf)) (by simp)
    · exact ⟨h, Smaller.refl rbb⟩
  | free i =>
    simp only [rbbStep] at hs
    split at hs
    · next hi => exact h.free hi hs
    · cases hs
  | queueGet len q =>
    obtain rfl := Option.some.inj hs
    exact h.queueGetLoop fun i hi => (h.listed i hi).1
  | queueFree q => exact h.queueFreeLoop hs

/-! ## The allocation -/

theorem findEmpty_some (h : rbb.findEmptyBlkInSet = some k) :
    k < rbb.blkMaxNum ∧ (rbb.blkSet k).status = .unused := by
  have hp := List.find?_some h
  exact ⟨List.mem_range.mp (List.mem_of_find?_eq_some h), of_decide_eq_true hp⟩

theorem findEmpty_none (h : rbb.findEmptyBlkInSet = none) (hk : k < rbb.blkMaxNum) :
    (rbb.blkSet k).status ≠ .unused := fun he =>
  List.find?_eq_none.mp h k (List.mem_range.mpr hk) (decide_eq_true he)

/-- Where a block is unused, the list is not full. -/
theorem Inv.length_lt (h : Inv rbb) (hk : k < rbb.blkMaxNum)
    (hu : (rbb.blkSet k).status = .unused) : rbb.blkList.length < rbb.blkMaxNum := by
  have hnd : (k :: rbb.blkList).Nodup :=
    List.nodup_cons.mpr ⟨fun hm => (h.listed k hm).2 hu, h.nodup⟩
  have hsub : k :: rbb.blkList ⊆ List.range rbb.blkMaxNum := by
    intro i hi
    rcases List.mem_cons.mp hi with rfl | hi
    · exact List.mem_range.mpr hk
    · exact List.mem_range.mpr (h.listed i hi).1
  have hlen := (List.subperm_of_subset hnd hsub).length_le
  rw [List.length_cons, List.length_range] at hlen
  exact hlen

/-- The first and the last block of the list. -/
theorem Inv.ends (h : Inv rbb) (hi : i ∈ rbb.blkList) :
    rbb.buf ≤ (rbb.blkSet i).buf ∧
      (rbb.blkSet i).buf + (rbb.blkSet i).size ≤ rbb.buf + rbb.bufSize ∧
      0 < (rbb.blkSet i).size := by
  obtain ⟨h1, h2⟩ := h.within i (h.listed i hi)
  exact ⟨h1, h2, h.pos i (h.listed i hi)⟩

/-- The first block `i` and the last one `j` tell the order of the list. -/
theorem Inv.order (h : Inv rbb) (hh : rbb.blkList.head? = some i)
    (ht : rbb.blkList.getLast? = some j) :
    (rbb.blkSet i).buf ≤ (rbb.blkSet j).buf ∧ (rbb.blkList.map (run rbb)).Pairwise Below ∨
      (rbb.blkSet j).buf < (rbb.blkSet i).buf ∧ ∃ a b, rbb.blkList.map (run rbb) = a ++ b ∧
        (b ++ a).Pairwise Below ∧ a.head? = some (run rbb i) ∧
        b.getLast? = some (run rbb j) := by
  refine h.around.cases (r := run rbb i) (s := run rbb j) (fun r hr => ?_) ?_ ?_
  · obtain ⟨k, hk, rfl⟩ := List.mem_map.mp hr
    exact h.pos k (h.listed k hk)
  · rw [List.head?_map, hh]
    rfl
  · rw [List.getLast?_map, ht]
    rfl

/-- The place is the only one. -/
theorem Place.unique {b : Nat} (h : Place rbb n a) (h' : Place rbb n b) : a = b := by
  have hempty : ∀ {x : Nat}, rbb.blkList = [] → rbb.blkList.head? ≠ some x := fun he hx => by
    rw [he] at hx
    cases hx
  cases h with
  | empty he =>
    cases h' with
    | empty => rfl
    | behind hh => exact absurd hh (hempty he)
    | turn hh => exact absurd hh (hempty he)
    | gap hh => exact absurd hh (hempty he)
  | behind hh ht ho hn =>
    cases h' with
    | empty he => exact absurd hh (hempty he)
    | behind hh' ht' =>
      obtain rfl := Option.some.inj (ht.symm.trans ht')
      rfl
    | turn hh' ht' ho' hf =>
      obtain rfl := Option.some.inj (ht.symm.trans ht')
      omega
    | gap hh' ht' ho' =>
      obtain rfl := Option.some.inj (ht.symm.trans ht')
      obtain rfl := Option.some.inj (hh.symm.trans hh')
      omega
  | turn hh ht ho hf hn =>
    cases h' with
    | empty he => exact absurd hh (hempty he)
    | behind hh' ht' ho' hn' =>
      obtain rfl := Option.some.inj (ht.symm.trans ht')
      omega
    | turn => rfl
    | gap hh' ht' ho' =>
      obtain rfl := Option.some.inj (ht.symm.trans ht')
      obtain rfl := Option.some.inj (hh.symm.trans hh')
      omega
  | gap hh ht ho hn =>
    cases h' with
    | empty he => exact absurd hh (hempty he)
    | behind hh' ht' _ | turn hh' ht' _ =>
      obtain rfl := Option.some.inj (ht.symm.trans ht')
      obtain rfl := Option.some.inj (hh.symm.trans hh')
      omega
    | gap hh' ht' =>
      obtain rfl := Option.some.inj (ht.symm.trans ht')
      rfl

/-- An allocation takes an unused block and the place, or there is none of one of them. -/
theorem Inv.alloc_cases {r : Option Nat} (h : Inv rbb)
    (hs : rbb.rtRbbBlkAlloc n = some (rbb', r)) :
    (∃ k a, k < rbb.blkMaxNum ∧ (rbb.blkSet k).status = .unused ∧ Place rbb n a ∧
        rbb' = rbb.initBlk k a n) ∨
      rbb' = rbb ∧ ∀ k a, k < rbb.blkMaxNum → (rbb.blkSet k).status = .unused →
        ¬ Place rbb n a := by
  have hsmall := h.small
  unfold rtRbbBlkAlloc at hs
  split at hs
  · split at hs
    · next hf =>
      cases hs
      exact .inr ⟨rfl, fun k a hk hu => absurd hu (findEmpty_none hf hk)⟩
    · next k hf =>
      obtain ⟨hk, hu⟩ := findEmpty_some hf
      rw [if_pos (h.length_lt hk hu)] at hs
      split at hs
      · next i t hh ht =>
        obtain ⟨hi1, hi2, hi3⟩ := h.ends (List.mem_of_mem_head? hh)
        obtain ⟨ht1, ht2, ht3⟩ := h.ends (List.mem_of_getLast? ht)
        have hend : add32 (rbb.blkSet t).buf (rbb.blkSet t).size =
            (rbb.blkSet t).buf + (rbb.blkSet t).size := add32_of_lt (by omega)
        have hbuf : add32 rbb.buf rbb.bufSize = rbb.buf + rbb.bufSize := add32_of_lt (by omega)
        have hplace : ∀ a, Place rbb n a → ((rbb.blkSet i).buf ≤ (rbb.blkSet t).buf ∧
            ((rbb.blkSet t).buf + (rbb.blkSet t).size + n ≤ rbb.buf + rbb.bufSize ∨
              rbb.buf + n ≤ (rbb.blkSet i).buf)) ∨
            (rbb.blkSet t).buf < (rbb.blkSet i).buf ∧
              (rbb.blkSet t).buf + (rbb.blkSet t).size + n ≤ (rbb.blkSet i).buf := by
          intro a hp
          cases hp with
          | empty he =>
            rw [he] at hh
            cases hh
          | behind hh' ht' ho hn =>
            obtain rfl := Option.some.inj (ht.symm.trans ht')
            obtain rfl := Option.some.inj (hh.symm.trans hh')
            exact .inl ⟨ho, .inl hn⟩
          | turn hh' ht' ho hf hn =>
            obtain rfl := Option.some.inj (ht.symm.trans ht')
            obtain rfl := Option.some.inj (hh.symm.trans hh')
            exact .inl ⟨ho, .inr hn⟩
          | gap hh' ht' ho hn =>
            obtain rfl := Option.some.inj (ht.symm.trans ht')
            obtain rfl := Option.some.inj (hh.symm.trans hh')
            exact .inr ⟨ho, hn⟩
        simp only [hend, hbuf] at hs
        split at hs
        · next ho =>
          rw [sub32_of_le (by omega), sub32_of_le hi1] at hs
          split at hs
          · next he =>
            cases hs
            exact .inl ⟨k, _, hk, hu, .behind hh ht ho (by omega), rfl⟩
          · next he =>
            split at hs
            · next he' =>
              cases hs
              exact .inl ⟨k, _, hk, hu, .turn hh ht ho (by omega) (by omega), rfl⟩
            · next he' =>
              cases hs
              refine .inr ⟨rfl, fun k a _ _ hp => ?_⟩
              have := hplace a hp
              omega
        · next ho =>
          -- the last block ends before the first one, since the list has turned
          have hle : (rbb.blkSet t).buf + (rbb.blkSet t).size ≤ (rbb.blkSet i).buf := by
            rcases h.order hh ht with ⟨hle, -⟩ | ⟨-, a, b, -, hp, ha, hb⟩
            · exact absurd hle ho
            · exact (List.pairwise_append.mp hp).2.2 _ (List.mem_of_getLast? hb) _
                (List.mem_of_mem_head? ha)
          rw [sub32_of_le hle] at hs
          split at hs
          · next he =>
            cases hs
            exact .inl ⟨k, _, hk, hu, .gap hh ht (by omega) (by omega), rfl⟩
          · next he =>
            cases hs
            refine .inr ⟨rfl, fun k a _ _ hp => ?_⟩
            have := hplace a hp
            omega
      · next hno =>
        cases hs
        refine .inl ⟨k, _, hk, hu, .empty ?_, rfl⟩
        cases hl : rbb.blkList with
        | nil => rfl
        | cons x l =>
          have hne : rbb.blkList ≠ [] := by
            rw [hl]
            exact List.cons_ne_nil x l
          exact (hno x _ (by rw [hl]; rfl) (List.getLast?_eq_some_getLast hne)).elim
  · cases hs

/-- The place lies in the buffer, and the list goes around the ring with it. -/
theorem Inv.place (h : Inv rbb) (hn : n ≤ rbb.bufSize) (hp : Place rbb n a) :
    Within rbb.buf (rbb.buf + rbb.bufSize) (a, n) ∧
      Around (rbb.blkList.map (run rbb) ++ [(a, n)]) := by
  have hhead : ∀ {i}, rbb.blkList.head? = some i →
      (rbb.blkList.map (run rbb)).head? = some (run rbb i) := fun hh => by
    rw [List.head?_map, hh]
    rfl
  have hlast : ∀ {i}, rbb.blkList.getLast? = some i →
      (rbb.blkList.map (run rbb)).getLast? = some (run rbb i) := fun ht => by
    rw [List.getLast?_map, ht]
    rfl
  cases hp with
  | empty he =>
    rw [he]
    exact ⟨⟨Nat.le_refl _, Nat.add_le_add_left hn _⟩,
      around_of_pairwise (List.pairwise_singleton _ _)⟩
  | @behind i t hh ht ho hle =>
    obtain ⟨ht1, -, -⟩ := h.ends (List.mem_of_getLast? ht)
    refine ⟨⟨Nat.le_add_right_of_le ht1, hle⟩, ?_⟩
    rcases h.order hh ht with ⟨-, hord⟩ | ⟨hlt, -⟩
    · exact around_of_pairwise (around_behind hord (hlast ht) (Nat.le_refl _))
    · exact absurd ho (Nat.not_le_of_lt hlt)
  | @turn i t hh ht ho hf hle =>
    refine ⟨⟨Nat.le_refl _, Nat.add_le_add_left hn _⟩, ?_⟩
    rcases h.order hh ht with ⟨-, hord⟩ | ⟨hlt, -⟩
    · exact around_turn hord (hhead hh) hle
    · exact absurd ho (Nat.not_le_of_lt hlt)
  | @gap i t hh ht ho hle =>
    obtain ⟨ht1, -, -⟩ := h.ends (List.mem_of_getLast? ht)
    obtain ⟨-, hi2, -⟩ := h.ends (List.mem_of_mem_head? hh)
    refine ⟨⟨Nat.le_add_right_of_le ht1, ?_⟩, ?_⟩
    · show (rbb.blkSet t).buf + (rbb.blkSet t).size + n ≤ _
      omega
    · rcases h.order hh ht with ⟨hle', -⟩ | ⟨-, a, b, hl, hord, ha, hb⟩
      · exact absurd hle' (Nat.not_le_of_lt ho)
      · rw [hl]
        exact around_gap hord ha hb (Nat.le_refl _) hle

theorem initBlk_blkSet : (rbb.initBlk k a n).blkSet i =
    if i = k then ⟨.inited, n, a⟩ else rbb.blkSet i := by
  simp only [initBlk, Function.update_apply]

theorem run_initBlk : run (rbb.initBlk k a n) i = if i = k then (a, n) else run rbb i := by
  unfold run
  rw [initBlk_blkSet]
  split <;> rfl

theorem live_initBlk (hk : k < rbb.blkMaxNum) :
    Live (rbb.initBlk k a n) i ↔ i = k ∨ Live rbb i := by
  unfold Live
  rw [initBlk_blkSet]
  show i < rbb.blkMaxNum ∧ _ ↔ _
  split
  · next he =>
    subst he
    exact ⟨fun _ => .inl rfl, fun _ => ⟨hk, by simp⟩⟩
  · next hne => exact ⟨fun h => .inr h, fun h => h.resolve_left hne⟩

theorem Inv.init (h : Inv rbb) (hn : 1 ≤ n) (hle : n ≤ rbb.bufSize) (hk : k < rbb.blkMaxNum)
    (hu : (rbb.blkSet k).status = .unused) (hp : Place rbb n a) : Inv (rbb.initBlk k a n) := by
  obtain ⟨hw, haround⟩ := h.place hle hp
  have hkl : k ∉ rbb.blkList := fun hm => (h.listed k hm).2 hu
  have hrun : (rbb.initBlk k a n).blkList.map (run (rbb.initBlk k a n)) =
      rbb.blkList.map (run rbb) ++ [(a, n)] := by
    show (rbb.blkList ++ [k]).map _ = _
    rw [List.map_append, List.map_singleton, run_initBlk, if_pos rfl]
    refine congrArg (· ++ [(a, n)]) (List.map_congr_left fun i hi => ?_)
    rw [run_initBlk, if_neg]
    rintro rfl
    exact hkl hi
  refine ⟨h.small, fun i hi => ?_, ?_, ?_, fun i hi => ?_, fun i hi => ?_⟩
  · rw [live_initBlk hk]
    rcases List.mem_append.mp hi with hi | hi
    · exact .inr (h.listed i hi)
    · exact .inl (List.mem_singleton.mp hi)
  · exact List.nodup_append.mpr ⟨h.nodup, List.nodup_singleton k, fun i hi j hj he => by
      rw [he, List.mem_singleton.mp hj] at hi
      exact hkl hi⟩
  · rw [hrun]
    exact haround
  · rw [initBlk_blkSet]
    split
    · exact hn
    · next hne => exact h.pos i (((live_initBlk hk).mp hi).resolve_left hne)
  · rw [run_initBlk]
    split
    · exact hw
    · next hne => exact h.within i (((live_initBlk hk).mp hi).resolve_left hne)

/-- The new block is apart from the others if and only if its place is clear. -/
theorem Inv.apart_iff (h : Inv rbb) (hb : BlocksApart rbb) (hk : k < rbb.blkMaxNum)
    (hu : (rbb.blkSet k).status = .unused) (hle : n ≤ rbb.bufSize) (hp : Place rbb n a) :
    BlocksApart (rbb.initBlk k a n) ↔
      ∀ i, Live rbb i → i ∉ rbb.blkList → Apart (run rbb i) (a, n) := by
  obtain ⟨hw, haround⟩ := h.place hle hp
  have hne : ∀ i, Live rbb i → i ≠ k := fun i hi he => by
    subst he
    exact hi.2 hu
  constructor
  · intro hap i hi _
    have hij := hap.apart i k ((live_initBlk hk).mpr (.inr hi)) ((live_initBlk hk).mpr (.inl rfl))
      (hne i hi)
    rw [run_initBlk, run_initBlk, if_neg (hne i hi), if_pos rfl] at hij
    exact hij
  · intro hclear
    -- the blocks of the list are apart from the place by the order of the list
    have hnew : ∀ i, Live rbb i → Apart (run rbb i) (a, n) := fun i hi => by
      by_cases hl : i ∈ rbb.blkList
      · exact (List.pairwise_append.mp haround.apart).2.2 _ (List.mem_map_of_mem hl) _
          (List.mem_singleton_self _)
      · exact hclear i hi hl
    refine ⟨fun i hi => ?_, fun i j hi hj hij => ?_⟩
    · rw [run_initBlk]
      split
      · exact hw
      · next hik => exact h.within i (((live_initBlk hk).mp hi).resolve_left hik)
    · rw [run_initBlk, run_initBlk]
      have hi' := (live_initBlk hk).mp hi
      have hj' := (live_initBlk hk).mp hj
      split
      · next hik =>
        split
        · next hjk => exact absurd (hik.trans hjk.symm) hij
        · next hjk => exact Or.symm (hnew j (hj'.resolve_left hjk))
      · next hik =>
        split
        · exact hnew i (hi'.resolve_left hik)
        · next hjk => exact hb.apart i j (hi'.resolve_left hik) (hj'.resolve_left hjk) hij

/-! ## Runs -/

theorem Inv.step (h : Inv rbb) (hs : rbbStep rbb act = some rbb') : Inv rbb' := by
  by_cases ha : ∃ n, act = .alloc n
  · obtain ⟨n, rfl⟩ := ha
    simp only [rbbStep] at hs
    split at hs
    · next hn =>
      obtain ⟨⟨r, o⟩, hr, rfl⟩ := Option.map_eq_some_iff.mp hs
      rcases h.alloc_cases hr with ⟨k, a, hk, hu, hp, rfl⟩ | ⟨rfl, -⟩
      · exact h.init hn.1 hn.2 hk hu hp
      · exact h
    · cases hs
  · exact (h.other (fun n he => ha ⟨n, he⟩) hs).1

/-- One step keeps the blocks apart if and only if it is clear. -/
theorem Inv.step_iff (h : Inv rbb) (hb : BlocksApart rbb) (hs : rbbStep rbb act = some rbb') :
    BlocksApart rbb' ↔ Clear rbb act := by
  by_cases ha : ∃ n, act = .alloc n
  · obtain ⟨n, rfl⟩ := ha
    simp only [rbbStep] at hs
    split at hs
    · next hn =>
      obtain ⟨⟨r, o⟩, hr, rfl⟩ := Option.map_eq_some_iff.mp hs
      rcases h.alloc_cases hr with ⟨k, a, hk, hu, hp, rfl⟩ | ⟨rfl, hno⟩
      · rw [h.apart_iff hb hk hu hn.2 hp]
        constructor
        · intro hclear m b he _ hp'
          cases he
          rw [← hp.unique hp']
          exact hclear
        · intro hclear
          exact hclear n a rfl ⟨k, hk, hu⟩ hp
      · refine iff_of_true hb fun m b he ⟨k, hk, hu⟩ hp => ?_
        cases he
        exact absurd hp (hno k b hk hu)
    · cases hs
  · have ha' : ∀ n, act ≠ .alloc n := fun n he => ha ⟨n, he⟩
    exact iff_of_true (hb.smaller (h.other ha' hs).2) fun n a he => absurd he (ha' n)

theorem rtRbbInit_not_live {buf bufSize blkMaxNum : Nat} {blockSet : Nat → RtRbbBlk} (i : Nat) :
    ¬ Live (rtRbbInit buf bufSize blockSet blkMaxNum) i := by
  rintro ⟨hi, hst⟩
  refine hst ?_
  show RtRbbBlk.status (if i < blkMaxNum then _ else _) = _
  rw [if_pos (show i < blkMaxNum from hi)]

theorem rtRbbInit_inv {buf bufSize blkMaxNum : Nat} {blockSet : Nat → RtRbbBlk}
    (hb : buf + bufSize < 4294967296) : Inv (rtRbbInit buf bufSize blockSet blkMaxNum) ∧
      BlocksApart (rtRbbInit buf bufSize blockSet blkMaxNum) := by
  have hno : ∀ i, ¬ Live (rtRbbInit buf bufSize blockSet blkMaxNum) i := rtRbbInit_not_live
  exact ⟨⟨hb, fun i hi => absurd hi List.not_mem_nil, List.nodup_nil,
    around_of_pairwise List.Pairwise.nil, fun i hi => absurd hi (hno i),
    fun i hi => absurd hi (hno i)⟩,
    ⟨fun i hi => absurd hi (hno i), fun i _ hi => absurd hi (hno i)⟩⟩

/-- **When the blocks in use are disjoint.** In every run, the blocks in use lie in the buffer and
are disjoint in every state if and only if the place of every allocation is clear. -/
theorem blocks_apart_iff (buf bufSize blkMaxNum : Nat) (blockSet : Nat → RtRbbBlk)
    (hb : buf + bufSize < 4294967296) (acts : List Act) (rbb : RtRbb)
    (hx : exec rbbStep (rtRbbInit buf bufSize blockSet blkMaxNum) acts = some rbb) :
    Visits rbbStep BlocksApart (rtRbbInit buf bufSize blockSet blkMaxNum) acts ↔
      Along rbbStep Clear (rtRbbInit buf bufSize blockSet blkMaxNum) acts := by
  refine (along_iff_visits (I := fun r => Inv r ∧ BlocksApart r) (fun r h => h.2) ?_ ?_ hx
    (rtRbbInit_inv hb)).symm
  · intro r act r' ⟨hi, hb⟩ hc hs
    exact ⟨hi.step hs, (hi.step_iff hb hs).mpr hc⟩
  · intro r act r' ⟨hi, hb⟩ hc hs hb'
    exact hc ((hi.step_iff hb hs).mp hb')

/-- Four blocks and ten bytes. -/
def tenBytes : RtRbb := rtRbbInit 64 10 (fun _ => ⟨.unused, 0, 0⟩) 4

/-- The two blocks that the queue took are still in use at the third allocation. -/
def queueRun : List Act := [.alloc 4, .alloc 4, .put 0, .put 1, .queueGet 100 ⟨0, 0⟩, .alloc 4]

theorem blocks_apart_iff_queue : ∃ rbb, exec rbbStep tenBytes queueRun = some rbb ∧
    (Visits rbbStep BlocksApart tenBytes queueRun ↔ Along rbbStep Clear tenBytes queueRun) := by
  have hrun : (exec rbbStep tenBytes queueRun).isSome = true := by decide +kernel
  obtain ⟨rbb, hx⟩ := Option.isSome_iff_exists.mp hrun
  exact ⟨rbb, hx, blocks_apart_iff 64 10 4 _ (by decide) queueRun rbb hx⟩

/-- Block 2 begins where block 0 does, and both are in use. -/
theorem queueRun_overlap : ∃ rbb, exec rbbStep tenBytes queueRun = some rbb ∧
    ¬ BlocksApart rbb := by
  have hrun : (exec rbbStep tenBytes queueRun).map (fun rbb => decide (rbb.blkMaxNum = 4 ∧
      rbb.blkSet 0 = ⟨.get, 4, 64⟩ ∧ rbb.blkSet 2 = ⟨.inited, 4, 64⟩)) = some true := by
    decide +kernel
  obtain ⟨rbb, hx, ho⟩ := Option.map_eq_some_iff.mp hrun
  obtain ⟨hm, h0, h2⟩ := of_decide_eq_true ho
  refine ⟨rbb, hx, fun hap => ?_⟩
  have h := hap.apart 0 2 ⟨by omega, by rw [h0]; simp⟩ ⟨by omega, by rw [h2]; simp⟩ (by decide)
  unfold Apart run at h
  rw [h0, h2] at h
  simp at h

end Tudu.RingBlk
