import TuduOS.Drivers.RingBlk

/-!
# Block queues of the ring block buffer (`ringblk_buf.c`)

`rt_rbb_blk_queue_get` goes through `blk_list`, but the queue that it fills in is a slice of
`blk_set`, and it compares where two blocks begin, not where the first one ends.

* `queueGet_spec`: the blocks that are taken, as `NextRun` says.
* `queueFree_iff`, `queueLen_eq`: what the two other functions do with a slice.
* `queue_ok_iff`: when a queue is what its caller may expect.

`PutOrder` has the blocks in the order of `rt_rbb_blk_put`.
-/

namespace Tudu.RingBlk

open Lts Runs RtRbb

namespace RtRbb

/-- None for a block that is not in `blk_set`. -/
def rtRbbBlkQueueLen (rbb : RtRbb) (q : BlkQueue) : Option Nat :=
  (List.range' q.blocks q.blkNum).foldl (fun total i => total.bind fun total =>
    if i < rbb.blkMaxNum then some (add32 total (rbb.blkSet i).size) else none) (some 0)

def rtRbbBlkQueueBuf (rbb : RtRbb) (q : BlkQueue) : Nat := (rbb.blkSet q.blocks).buf

end RtRbb

/-- The buffer, and the blocks that are put, in this order. -/
structure PutOrder where
  rbb : RtRbb
  puts : List Nat

/-- The blocks that are put after the operation. -/
def nextPuts (puts : List Nat) (rbb : RtRbb) : Act → List Nat
  | .put block => (puts ++ [block]).filter fun i => decide ((rbb.blkSet i).status = .put)
  | _ => puts.filter fun i => decide ((rbb.blkSet i).status = .put)

def putStep (s : PutOrder) (act : Act) : Option PutOrder :=
  (rbbStep s.rbb act).map fun rbb => ⟨rbb, nextPuts s.puts rbb act⟩

/-! ## The property -/

/-- The blocks of the list that are no longer on it. -/
def dequeued (rbb rbb' : RtRbb) : List Nat := rbb.blkList.filter fun i => i ∉ rbb'.blkList

/-- The bytes of the run. -/
def bytes (mem : Nat → UInt8) (r : Run) : List UInt8 := (places r).map mem

/-- A call returned `n`, and the queue `q`. -/
structure QueueOk (s : PutOrder) (len : Nat) (rbb' : RtRbb) (n : Nat) (q : BlkQueue) : Prop where
  bound : n ≤ len
  queueLen : rbb'.rtRbbBlkQueueLen q = some n
  contents : ∀ mem, bytes mem (rbb'.rtRbbBlkQueueBuf q, n) =
    (s.puts.filter fun i => i ∈ dequeued s.rbb rbb').flatMap fun i => bytes mem (run s.rbb i)
  queueFree : ∃ r, rbb'.rtRbbBlkQueueFree q = some r ∧ ∀ i < rbb'.blkMaxNum,
    (r.blkSet i).status = .unused ↔
      (rbb'.blkSet i).status = .unused ∨ i ∈ dequeued s.rbb rbb'

/-- The blocks `l` are put, none begins before the one that precedes it, and with the `total` bytes
up to the block `last` they fit into `len`. -/
def GoesOn (rbb : RtRbb) (len : Nat) : Nat → Nat → List Nat → Prop
  | _, _, [] => True
  | last, total, i :: l => (rbb.blkSet i).status = .put ∧
    (rbb.blkSet last).buf ≤ (rbb.blkSet i).buf ∧ total + (rbb.blkSet i).size ≤ len ∧
      GoesOn rbb len i (total + (rbb.blkSet i).size) l

/-- `i` is the first block of the list that is put, and `l` the longest list of blocks behind it
that goes on from it. -/
def NextRun (rbb : RtRbb) (len i : Nat) (l : List Nat) : Prop :=
  ∃ rest, rbb.blkList.dropWhile (fun i => (rbb.blkSet i).status ≠ .put) = i :: (l ++ rest) ∧
    GoesOn rbb len i (rbb.blkSet i).size l ∧
      ∀ j, rest.head? = some j → ¬ GoesOn rbb len i (rbb.blkSet i).size (l ++ [j])

/-- The first block fits, the next blocks are a slice of `blk_set`, and their bytes in the order in
which they were put are those from the first block on. -/
def Sliced (s : PutOrder) (len : Nat) : Prop :=
  ∀ i l, NextRun s.rbb len i l → (s.rbb.blkSet i).size ≤ len ∧
    (i :: l).Perm (List.range' i (l.length + 1)) ∧
      Joined (s.rbb.blkSet i).buf ((s.puts.filter fun j => j ∈ i :: l).map (run s.rbb))

variable {rbb rbb' : RtRbb} {act : Act} {s s' : PutOrder} {i j n len sum last : Nat}
  {l rest : List Nat} {q : BlkQueue}

/-! ## Blocks leave the list -/

/-- The blocks are taken off the list, one after the other. -/
def takeAll (rbb : RtRbb) (l : List Nat) : RtRbb := l.foldl (fun rbb i => rbb.unlink i .get) rbb

theorem takeAll_cons : takeAll rbb (i :: l) = takeAll (rbb.unlink i .get) l := rfl

theorem takeAll_blkList : (takeAll rbb l).blkList = rbb.blkList.diff l := by
  induction l generalizing rbb with
  | nil => rw [List.diff_nil]; rfl
  | cons i l ih =>
    rw [takeAll_cons, ih, List.diff_cons]
    rfl

theorem takeAll_blkMaxNum : (takeAll rbb l).blkMaxNum = rbb.blkMaxNum := by
  induction l generalizing rbb with
  | nil => rfl
  | cons i l ih => exact ih

theorem takeAll_blkSet : (takeAll rbb l).blkSet j =
    if j ∈ l then { rbb.blkSet j with status := .get } else rbb.blkSet j := by
  induction l generalizing rbb with
  | nil => rfl
  | cons i l ih =>
    have hu : (rbb.unlink i .get).blkSet j =
        if j = i then { rbb.blkSet i with status := .get } else rbb.blkSet j := setStatus_blkSet
    rw [takeAll_cons, ih, hu]
    by_cases hji : j = i
    · subst hji
      simp
    · simp [hji]

theorem goesOn_congr (h : ∀ j ∈ l, rbb'.blkSet j = rbb.blkSet j)
    (hl : (rbb'.blkSet last).buf = (rbb.blkSet last).buf) :
    GoesOn rbb' len last sum l ↔ GoesOn rbb len last sum l := by
  induction l generalizing last sum with
  | nil => exact Iff.rfl
  | cons i l ih =>
    have hi := h i List.mem_cons_self
    simp only [GoesOn, hi, hl]
    rw [ih (fun j hj => h j (List.mem_cons_of_mem _ hj)) (by rw [hi])]

/-! ## The loop of `rt_rbb_blk_queue_get` -/

/-- What the loop relies on: the blocks of the list are apart, and their addresses fit into 32
bits. -/
structure Room (rbb : RtRbb) (l : List Nat) : Prop where
  nodup : l.Nodup
  apart : l.Pairwise fun i j => Apart (run rbb i) (run rbb j)
  pos : ∀ i ∈ l, 0 < (rbb.blkSet i).size
  small : ∀ i ∈ l, (rbb.blkSet i).buf + (rbb.blkSet i).size < 2 ^ 32

theorem run_unlink {x : Status} : run (rbb.unlink i x) j = run rbb j := by
  have hu : (rbb.unlink i x).blkSet j =
      if j = i then { rbb.blkSet i with status := x } else rbb.blkSet j := setStatus_blkSet
  unfold run
  rw [hu]
  split
  · next hji => rw [hji]
  · rfl

theorem Room.tail (h : Room rbb (i :: l)) : Room rbb l :=
  ⟨(List.nodup_cons.mp h.nodup).2, (List.pairwise_cons.mp h.apart).2,
    fun j hj => h.pos j (List.mem_cons_of_mem _ hj),
    fun j hj => h.small j (List.mem_cons_of_mem _ hj)⟩

theorem Room.unlink {x : Status} (h : Room rbb l) : Room (rbb.unlink i x) l := by
  have hrun : ∀ j, (((rbb.unlink i x).blkSet j).buf, ((rbb.unlink i x).blkSet j).size) =
      ((rbb.blkSet j).buf, (rbb.blkSet j).size) := fun j => run_unlink
  refine ⟨h.nodup, ?_, fun j hj => ?_, fun j hj => ?_⟩
  · simp only [run_unlink]
    exact h.apart
  · rw [(Prod.mk.inj (hrun j)).2]
    exact h.pos j hj
  · rw [(Prod.mk.inj (hrun j)).1, (Prod.mk.inj (hrun j)).2]
    exact h.small j hj

/-- The next block of the list ends within 32 bits, and so does the sum. -/
theorem Room.next (h : Room rbb (last :: i :: l))
    (hsum : sum ≤ (rbb.blkSet last).buf + (rbb.blkSet last).size)
    (hle : (rbb.blkSet last).buf ≤ (rbb.blkSet i).buf) :
    add32 sum (rbb.blkSet i).size = sum + (rbb.blkSet i).size ∧
      sum + (rbb.blkSet i).size ≤ (rbb.blkSet i).buf + (rbb.blkSet i).size := by
  have hi : i ∈ last :: i :: l := List.mem_cons_of_mem _ List.mem_cons_self
  have hap : Apart (run rbb last) (run rbb i) :=
    (List.pairwise_cons.mp h.apart).1 i List.mem_cons_self
  have hpos := h.pos i hi
  have hsmall := h.small i hi
  simp only [Apart, run] at hap
  exact ⟨add32_of_lt (by omega), by omega⟩

/-- The loop takes the blocks that go on from the last one, as far as they do. -/
theorem queueGetLoop_taken (hr : Room rbb (last :: (l ++ rest)))
    (hsum : sum ≤ (rbb.blkSet last).buf + (rbb.blkSet last).size)
    (hgo : GoesOn rbb len last sum l)
    (hmax : ∀ j, rest.head? = some j → ¬ GoesOn rbb len last sum (l ++ [j])) :
    queueGetLoop len (l ++ rest) rbb (some last) sum q =
      (takeAll rbb l, sum + total (l.map (run rbb)), ⟨q.blocks, q.blkNum + l.length⟩) := by
  induction l generalizing rbb last sum q with
  | nil =>
    cases rest with
    | nil => rfl
    | cons j rest =>
      have hno := hmax j rfl
      simp only [List.nil_append, GoesOn, and_true, not_and] at hno
      have hstop : (rbb.blkSet j).status ≠ .put ∨ (rbb.blkSet last).buf > (rbb.blkSet j).buf ∨
          add32 sum (rbb.blkSet j).size > len := by
        by_cases hput : (rbb.blkSet j).status = .put
        · by_cases hle : (rbb.blkSet last).buf ≤ (rbb.blkSet j).buf
          · have hadd := (hr.next hsum hle).1
            have hlen := hno hput hle
            exact .inr (.inr (by omega))
          · exact .inr (.inl (Nat.lt_of_not_le hle))
        · exact .inl hput
      rw [List.nil_append, queueGetLoop, if_pos hstop]
      rfl
  | cons i l ih =>
    obtain ⟨hput, hle, hlen, hgo⟩ := hgo
    obtain ⟨hadd, hend⟩ := hr.next hsum hle
    have hgoes : ¬ ((rbb.blkSet i).status ≠ .put ∨ (rbb.blkSet last).buf > (rbb.blkSet i).buf ∨
        add32 sum (rbb.blkSet i).size > len) := by
      rw [hadd]
      rintro (hn | hn | hn)
      · exact hn hput
      · omega
      · omega
    have hi : i ∉ l ++ rest := (List.nodup_cons.mp (List.nodup_cons.mp hr.nodup).2).1
    have hset : ∀ j, j ≠ i → (rbb.unlink i .get).blkSet j = rbb.blkSet j := fun j hj => by
      rw [RtRbb.unlink]
      show (rbb.setStatus i .get).blkSet j = _
      rw [setStatus_blkSet, if_neg hj]
    have hbuf : ((rbb.unlink i .get).blkSet i).buf = (rbb.blkSet i).buf :=
      congrArg Prod.fst run_unlink
    have hsize : ((rbb.unlink i .get).blkSet i).size = (rbb.blkSet i).size :=
      congrArg Prod.snd run_unlink
    have hl : ∀ j ∈ l, (rbb.unlink i .get).blkSet j = rbb.blkSet j := fun j hj =>
      hset j fun he => hi (List.mem_append_left _ (he ▸ hj))
    have hruns : l.map (run (rbb.unlink i .get)) = l.map (run rbb) :=
      List.map_congr_left fun j _ => run_unlink
    rw [List.cons_append, queueGetLoop, if_neg hgoes, hadd]
    rw [ih (hr.tail.unlink) (by rw [hbuf, hsize]; exact hend) ((goesOn_congr hl hbuf).mpr hgo)
      fun j hj hn => ?_, takeAll_cons, hruns]
    · simp only [List.map_cons, List.length_cons, Runs.total, run]
      rw [Nat.add_assoc, Nat.add_assoc, Nat.add_comm 1]
    · refine hmax j hj ⟨hput, hle, hlen, ?_⟩
      have hlj : ∀ k ∈ l ++ [j], (rbb.unlink i .get).blkSet k = rbb.blkSet k := fun k hk =>
        hset k fun he => hi <| by
          subst he
          rcases List.mem_append.mp hk with hk | hk
          · exact List.mem_append_left _ hk
          · rw [List.mem_singleton.mp hk]
            exact List.mem_append_right _ (List.mem_of_mem_head? hj)
      exact (goesOn_congr hlj hbuf).mp hn

/-- There is such a list of blocks. -/
theorem exists_goesOn (rbb : RtRbb) (len last sum : Nat) (l : List Nat) : ∃ t rest,
    l = t ++ rest ∧ GoesOn rbb len last sum t ∧
      ∀ j, rest.head? = some j → ¬ GoesOn rbb len last sum (t ++ [j]) := by
  induction l generalizing last sum with
  | nil => exact ⟨[], [], rfl, trivial, fun j hj => by cases hj⟩
  | cons i l ih =>
    by_cases h : GoesOn rbb len last sum [i]
    · obtain ⟨hput, hle, hlen, -⟩ := h
      obtain ⟨t, rest, rfl, hgo, hmax⟩ := ih i (sum + (rbb.blkSet i).size)
      exact ⟨i :: t, rest, rfl, ⟨hput, hle, hlen, hgo⟩, fun j hj hn => hmax j hj hn.2.2.2⟩
    · refine ⟨[], i :: l, rfl, trivial, fun j hj => ?_⟩
      rw [← Option.some.inj hj]
      exact h

theorem exists_nextRun (h : rbb.blkList.dropWhile (fun i => (rbb.blkSet i).status ≠ .put) =
    i :: l) : ∃ t, NextRun rbb len i t := by
  obtain ⟨t, rest, rfl, hgo, hmax⟩ := exists_goesOn rbb len i (rbb.blkSet i).size l
  exact ⟨t, rest, h, hgo, hmax⟩

theorem queueGetLoop_skip (l : List Nat) : queueGetLoop len l rbb none sum q =
    queueGetLoop len (l.dropWhile fun i => (rbb.blkSet i).status ≠ .put) rbb none sum q := by
  induction l with
  | nil => rfl
  | cons i l ih =>
    by_cases hput : (rbb.blkSet i).status = .put
    · rw [List.dropWhile_cons_of_neg (by simp [hput])]
    · rw [List.dropWhile_cons_of_pos (by simp [hput]), ← ih, queueGetLoop, if_neg hput]

theorem Inv.room (h : Inv rbb) : Room rbb rbb.blkList where
  nodup := h.nodup
  apart := List.pairwise_map.mp h.around.apart
  pos i hi := h.pos i (h.listed i hi)
  small i hi := Nat.lt_of_le_of_lt (h.within i (h.listed i hi)).2 h.small

theorem Room.sublist (h : Room rbb l) (hs : rest.Sublist l) : Room rbb rest :=
  ⟨hs.nodup h.nodup, h.apart.sublist hs, fun i hi => h.pos i (hs.subset hi),
    fun i hi => h.small i (hs.subset hi)⟩

theorem NextRun.sublist (h : NextRun rbb len i l) : (i :: l).Sublist rbb.blkList := by
  obtain ⟨rest, hd, -⟩ := h
  have hs := List.dropWhile_sublist (l := rbb.blkList)
    (fun i => decide ((rbb.blkSet i).status ≠ .put))
  rw [hd] at hs
  exact ((List.sublist_append_left l rest).cons_cons i).trans hs

theorem goesOn_put (h : GoesOn rbb len last sum l) : ∀ j ∈ l, (rbb.blkSet j).status = .put := by
  induction l generalizing last sum with
  | nil => exact fun j hj => absurd hj List.not_mem_nil
  | cons i l ih =>
    intro j hj
    rcases List.mem_cons.mp hj with rfl | hj
    · exact h.1
    · exact ih h.2.2.2 j hj

theorem NextRun.first (h : NextRun rbb len i l) : (rbb.blkSet i).status = .put := by
  obtain ⟨rest, hd, -⟩ := h
  have hne : rbb.blkList.dropWhile (fun i => decide ((rbb.blkSet i).status ≠ .put)) ≠ [] := by
    rw [hd]
    exact List.cons_ne_nil _ _
  have hnot := List.head_dropWhile_not (fun i => decide ((rbb.blkSet i).status ≠ .put)) hne
  simp only [hd, List.head_cons] at hnot
  simpa using hnot

theorem NextRun.put (h : NextRun rbb len i l) : ∀ j ∈ i :: l, (rbb.blkSet j).status = .put := by
  intro j hj
  rcases List.mem_cons.mp hj with rfl | hj
  · exact h.first
  · obtain ⟨rest, -, hgo, -⟩ := h
    exact goesOn_put hgo j hj

/-- The blocks that are taken, the size and the queue. -/
theorem queueGet_spec (h : Inv rbb) (hn : NextRun rbb len i l) : rbb.rtRbbBlkQueueGet len q =
    (takeAll rbb (i :: l), total ((i :: l).map (run rbb)), ⟨i, (i :: l).length⟩) := by
  have hput := hn.first
  obtain ⟨rest, hd, hgo, hmax⟩ := hn
  have hs := List.dropWhile_sublist (l := rbb.blkList)
    (fun i => decide ((rbb.blkSet i).status ≠ .put))
  rw [hd] at hs
  have hroom := h.room.sublist hs
  have hbuf : ((rbb.unlink i .get).blkSet i).buf = (rbb.blkSet i).buf :=
    congrArg Prod.fst run_unlink
  have hsize : ((rbb.unlink i .get).blkSet i).size = (rbb.blkSet i).size :=
    congrArg Prod.snd run_unlink
  have hnot : i ∉ l ++ rest := (List.nodup_cons.mp hroom.nodup).1
  have hset : ∀ j ∈ l ++ rest, (rbb.unlink i .get).blkSet j = rbb.blkSet j := fun j hj => by
    rw [RtRbb.unlink]
    show (rbb.setStatus i .get).blkSet j = _
    rw [setStatus_blkSet, if_neg fun he => hnot (by rwa [← he])]
  have hsmall := hroom.small i List.mem_cons_self
  have hadd : add32 0 (rbb.blkSet i).size = (rbb.blkSet i).size := by
    rw [add32_of_lt (by omega), Nat.zero_add]
  have hlast : ∀ t, (∀ j ∈ t, j ∈ l ++ rest) →
      (GoesOn (rbb.unlink i .get) len i (rbb.blkSet i).size t ↔
        GoesOn rbb len i (rbb.blkSet i).size t) :=
    fun t ht => goesOn_congr (fun j hj => hset j (ht j hj)) hbuf
  rw [rtRbbBlkQueueGet, queueGetLoop_skip, hd, queueGetLoop, if_pos hput, hadd,
    queueGetLoop_taken hroom.unlink (by rw [hbuf, hsize]; exact Nat.le_add_left ..)
      ((hlast l fun j hj => List.mem_append_left _ hj).mpr hgo) fun j hj hno => ?_]
  · have hruns : l.map (run (rbb.unlink i .get)) = l.map (run rbb) :=
      List.map_congr_left fun j _ => run_unlink
    rw [hruns, Nat.add_comm 1]
    rfl
  · refine hmax j hj ((hlast _ fun k hk => ?_).mp hno)
    rcases List.mem_append.mp hk with hk | hk
    · exact List.mem_append_left _ hk
    · rw [List.mem_singleton.mp hk]
      exact List.mem_append_right _ (List.mem_of_mem_head? hj)

/-- A call that finds a block has a next run. -/
theorem exists_of_pos (hn : 0 < (rbb.rtRbbBlkQueueGet len q).2.1) : ∃ i l, NextRun rbb len i l := by
  rw [rtRbbBlkQueueGet, queueGetLoop_skip] at hn
  cases hd : rbb.blkList.dropWhile (fun i => decide ((rbb.blkSet i).status ≠ .put)) with
  | nil =>
    rw [hd] at hn
    exact absurd hn (Nat.lt_irrefl 0)
  | cons i l =>
    obtain ⟨t, ht⟩ := exists_nextRun hd
    exact ⟨i, t, ht⟩

theorem filter_mem_of_sublist (h : rest.Sublist l) (hnd : l.Nodup) :
    l.filter (fun j => j ∈ rest) = rest := by
  induction h with
  | slnil => rfl
  | @cons t l i hs ih =>
    obtain ⟨hi, hnd⟩ := List.nodup_cons.mp hnd
    rw [List.filter_cons_of_neg (by simpa using fun hm => hi (hs.subset hm)), ih hnd]
  | @cons_cons t l i hs ih =>
    obtain ⟨hi, hnd⟩ := List.nodup_cons.mp hnd
    rw [List.filter_cons_of_pos (by simp)]
    refine congrArg (i :: ·) (Eq.trans (List.filter_congr fun j hj => ?_) (ih hnd))
    have hji : j ≠ i := fun he => hi (he ▸ hj)
    simp [hji]

theorem NextRun.dequeued (h : NextRun rbb len i l) (hnd : rbb.blkList.Nodup) :
    dequeued rbb (takeAll rbb (i :: l)) = i :: l := by
  refine Eq.trans (List.filter_congr fun j hj => ?_) (filter_mem_of_sublist h.sublist hnd)
  have hm : j ∈ rbb.blkList.diff (i :: l) ↔ j ∈ rbb.blkList ∧ j ∉ i :: l := hnd.mem_sdiff_iff
  rw [takeAll_blkList, decide_eq_decide, hm]
  simp only [hj, true_and, not_not]

/-! ## The queue -/

theorem foldl_queueLen : ∀ sum < 2 ^ 32,
    l.foldl (fun total i => total.bind fun total =>
      if i < rbb.blkMaxNum then some (add32 total (rbb.blkSet i).size) else none) (some sum) =
    if ∀ i ∈ l, i < rbb.blkMaxNum then some ((sum + total (l.map (run rbb))) % 2 ^ 32)
    else none := by
  have hnone : ∀ l : List Nat, l.foldl (fun total i => total.bind fun total =>
      if i < rbb.blkMaxNum then some (add32 total (rbb.blkSet i).size) else none) none =
      none := fun l => by
    induction l with
    | nil => rfl
    | cons i l ih => exact ih
  induction l with
  | nil =>
    intro sum hsum
    rw [if_pos fun i hi => absurd hi List.not_mem_nil]
    exact congrArg some (Nat.mod_eq_of_lt hsum).symm
  | cons i l ih =>
    intro sum hsum
    rw [List.foldl_cons, Option.bind_some]
    by_cases hi : i < rbb.blkMaxNum
    · rw [if_pos hi, ih (add32 sum (rbb.blkSet i).size) (Nat.mod_lt _ (by decide))]
      simp only [List.forall_mem_cons, hi, true_and, List.map_cons, total, run, add32,
        Nat.mod_add_mod, Nat.add_assoc]
    · rw [if_neg hi, hnone, if_neg fun hall => hi (hall i List.mem_cons_self)]

theorem queueLen_eq : rbb.rtRbbBlkQueueLen q =
    if ∀ i ∈ List.range' q.blocks q.blkNum, i < rbb.blkMaxNum then
      some (total ((List.range' q.blocks q.blkNum).map (run rbb)) % 2 ^ 32)
    else none := by
  rw [rtRbbBlkQueueLen, foldl_queueLen 0 (by decide), Nat.zero_add]

theorem queueFreeLoop_some {b : Nat} {r : RtRbb} (h : queueFreeLoop rbb b n = some r) :
    (∀ i ∈ List.range' b n, Live rbb i) ∧ r.blkMaxNum = rbb.blkMaxNum ∧ ∀ i, r.blkSet i =
      if i ∈ List.range' b n then { rbb.blkSet i with status := .unused } else rbb.blkSet i := by
  induction n generalizing r with
  | zero =>
    obtain rfl := Option.some.inj h
    exact ⟨fun i hi => absurd hi List.not_mem_nil, rfl, fun i => rfl⟩
  | succ n ih =>
    obtain ⟨u, hu, hs⟩ := Option.bind_eq_some_iff.mp h
    obtain ⟨hlive, hmax, hset⟩ := ih hu
    split at hs
    · next hlt =>
      unfold rtRbbBlkFree at hs
      split at hs
      · next hst =>
        obtain rfl := Option.some.inj hs
        have hb : b + n ∉ List.range' b n := fun hm => by
          have := List.mem_range'_1.mp hm
          omega
        rw [hset, if_neg hb] at hst
        rw [hmax] at hlt
        rw [List.range'_1_concat]
        refine ⟨fun i hi => ?_, hmax, fun i => ?_⟩
        · rcases List.mem_append.mp hi with hi | hi
          · exact hlive i hi
          · rw [List.mem_singleton.mp hi]
            exact ⟨hlt, hst⟩
        · show (u.setStatus (b + n) .unused).blkSet i = _
          rw [setStatus_blkSet, hset, hset, if_neg hb]
          by_cases hi : i = b + n
          · rw [if_pos hi, if_pos (List.mem_append_right _ (List.mem_singleton.mpr hi)), hi]
          · simp [hi]
      · cases hs
    · cases hs

theorem queueFreeLoop_of_live {b : Nat} (h : ∀ i ∈ List.range' b n, Live rbb i) :
    ∃ r, queueFreeLoop rbb b n = some r := by
  induction n with
  | zero => exact ⟨rbb, rfl⟩
  | succ n ih =>
    rw [List.range'_1_concat] at h
    obtain ⟨r, hr⟩ := ih fun i hi => h i (List.mem_append_left _ hi)
    obtain ⟨-, hmax, hset⟩ := queueFreeLoop_some hr
    obtain ⟨hlt, hst⟩ := h (b + n) (List.mem_append_right _ (List.mem_singleton_self _))
    have hb : b + n ∉ List.range' b n := fun hm => by
      have := List.mem_range'_1.mp hm
      omega
    rw [queueFreeLoop, hr, Option.bind_some, hmax, if_pos hlt, rtRbbBlkFree, hset, if_neg hb,
      if_pos hst]
    exact ⟨_, rfl⟩

/-! ## What the caller gets -/

theorem map_mem_iff {a b : List Nat} : (∀ mem : Nat → UInt8, a.map mem = b.map mem) ↔ a = b := by
  refine ⟨fun h => ?_, fun h mem => by rw [h]⟩
  have hlen : a.length = b.length := by
    have := congrArg List.length (h fun _ => 0)
    rwa [List.length_map, List.length_map] at this
  refine List.ext_getElem hlen fun k hk hk' => ?_
  -- a memory that has a 1 at the one address only
  have hone := congrArg (fun l => l[k]?) (h fun x => if x = a[k] then 1 else 0)
  simp only [List.getElem?_map, List.getElem?_eq_getElem hk, List.getElem?_eq_getElem hk',
    Option.map_some, if_true, Option.some.injEq] at hone
  split at hone
  · next he => exact he.symm
  · cases hone

theorem goesOn_total (h : GoesOn rbb len last sum l) (hs : sum ≤ len) :
    sum + total (l.map (run rbb)) ≤ len := by
  induction l generalizing last sum with
  | nil => exact hs
  | cons i l ih =>
    have := ih h.2.2.2 h.2.2.1
    simp only [List.map_cons, total, run] at this ⊢
    omega

theorem goesOn_small (hr : Room rbb (last :: l)) (h : GoesOn rbb len last sum l)
    (hs : sum ≤ (rbb.blkSet last).buf + (rbb.blkSet last).size) :
    sum + total (l.map (run rbb)) < 2 ^ 32 := by
  induction l generalizing last sum with
  | nil => exact Nat.lt_of_le_of_lt hs (hr.small last List.mem_cons_self)
  | cons i l ih =>
    have := ih hr.tail h.2.2.2 (hr.next hs h.2.1).2
    simp only [List.map_cons, total, run] at this ⊢
    omega

/-- What holds in every run: the blocks that are put are known, each once. -/
structure PutInv (s : PutOrder) : Prop where
  inv : Inv s.rbb
  nodup : s.puts.Nodup
  put : ∀ i ∈ s.puts, (s.rbb.blkSet i).status = .put
  mem : ∀ i < s.rbb.blkMaxNum, (s.rbb.blkSet i).status = .put → i ∈ s.puts

theorem PutInv.perm (h : PutInv s) (hn : NextRun s.rbb len i l) :
    (s.puts.filter fun j => j ∈ i :: l).Perm (i :: l) := by
  have hnd := hn.sublist.nodup h.inv.nodup
  refine (List.perm_ext_iff_of_nodup (h.nodup.filter _) hnd).mpr fun j => ?_
  rw [List.mem_filter, decide_eq_true_eq]
  refine ⟨fun hj => hj.2, fun hj => ⟨h.mem j ?_ (hn.put j hj), hj⟩⟩
  exact (h.inv.listed j (hn.sublist.subset hj)).1

theorem PutInv.contents_iff (h : PutInv s) (hn : NextRun s.rbb len i l) :
    (∀ mem, bytes mem ((s.rbb.blkSet i).buf, total ((i :: l).map (run s.rbb))) =
      (s.puts.filter fun j => j ∈ i :: l).flatMap fun j => bytes mem (run s.rbb j)) ↔
    Joined (s.rbb.blkSet i).buf ((s.puts.filter fun j => j ∈ i :: l).map (run s.rbb)) := by
  have hperm := h.perm hn
  obtain ⟨po, hpo⟩ : ∃ po, po = s.puts.filter fun j => j ∈ i :: l := ⟨_, rfl⟩
  rw [← hpo] at hperm ⊢
  have hpos : ∀ r ∈ po.map (run s.rbb), 0 < r.2 := fun r hr => by
    obtain ⟨j, hj, rfl⟩ := List.mem_map.mp hr
    exact h.inv.pos j (h.inv.listed j (hn.sublist.subset (hperm.subset hj)))
  have hmap : ∀ mem : Nat → UInt8, (po.flatMap fun j => bytes mem (run s.rbb j)) =
      ((po.map (run s.rbb)).flatMap places).map mem := fun mem => by
    rw [List.map_flatMap, List.flatMap_map]
    rfl
  rw [← flatMap_places hpos, ← total_perm (hperm.symm.map (run s.rbb)), ← map_mem_iff]
  simp only [hmap]
  exact forall_congr' fun mem => eq_comm

theorem PutInv.ok_iff (h : PutInv s) (hn : NextRun s.rbb len i l) :
    QueueOk s len (takeAll s.rbb (i :: l)) (total ((i :: l).map (run s.rbb)))
      ⟨i, (i :: l).length⟩ ↔
    (s.rbb.blkSet i).size ≤ len ∧ (i :: l).Perm (List.range' i (l.length + 1)) ∧
      Joined (s.rbb.blkSet i).buf ((s.puts.filter fun j => j ∈ i :: l).map (run s.rbb)) := by
  have hdeq := hn.dequeued h.inv.nodup
  have hlive : ∀ j ∈ i :: l, Live s.rbb j := fun j hj =>
    h.inv.listed j (hn.sublist.subset hj)
  have hget : ∀ j, ((takeAll s.rbb (i :: l)).blkSet j).status =
      if j ∈ i :: l then .get else (s.rbb.blkSet j).status := fun j => by
    rw [takeAll_blkSet]
    split <;> rfl
  have hruns : run (takeAll s.rbb (i :: l)) = run s.rbb := funext fun j => by
    unfold run
    rw [takeAll_blkSet]
    split <;> rfl
  have hbuf : (takeAll s.rbb (i :: l)).rtRbbBlkQueueBuf ⟨i, (i :: l).length⟩ =
      (s.rbb.blkSet i).buf := congrArg Prod.fst (congrFun hruns i)
  constructor
  · rintro ⟨hb, -, hc, r, hr, hfree⟩
    rw [hbuf, hdeq, h.contents_iff hn] at hc
    refine ⟨Nat.le_trans (Nat.le_add_right _ _) hb, ?_, hc⟩
    have hloop : queueFreeLoop (takeAll s.rbb (i :: l)) i (l.length + 1) = some r := hr
    obtain ⟨hall, hmax, hset⟩ := queueFreeLoop_some hloop
    simp only [hdeq] at hfree
    refine (List.perm_ext_iff_of_nodup (hn.sublist.nodup h.inv.nodup)
      List.nodup_range').mpr fun j => ⟨fun hj => ?_, fun hj => ?_⟩
    · have hun := (hfree j (by rw [takeAll_blkMaxNum]; exact (hlive j hj).1)).mpr
        (.inr hj)
      rw [hset] at hun
      split at hun
      · assumption
      · rw [hget, if_pos hj] at hun
        cases hun
    · have hun := (hfree j (hall j hj).1).mp (by rw [hset, if_pos hj])
      exact hun.resolve_left (hall j hj).2
  · rintro ⟨hle, hperm, hj⟩
    have hmem : ∀ j, j ∈ List.range' i (i :: l).length ↔ j ∈ i :: l := fun j => hperm.symm.mem_iff
    have hroom := h.inv.room.sublist hn.sublist
    obtain ⟨rest, -, hgo, -⟩ := id hn
    refine ⟨goesOn_total hgo hle, ?_, ?_, ?_⟩
    · have hsmall := goesOn_small hroom hgo (Nat.le_add_left _ _)
      have hslots : total ((List.range' i (i :: l).length).map (run s.rbb)) =
          total ((i :: l).map (run s.rbb)) := total_perm (hperm.symm.map (run s.rbb))
      rw [queueLen_eq, hruns, takeAll_blkMaxNum, if_pos fun j hj => (hlive j ((hmem j).mp hj)).1,
        hslots]
      exact congrArg some (Nat.mod_eq_of_lt hsmall)
    · rw [hbuf, hdeq]
      exact (h.contents_iff hn).mpr hj
    · obtain ⟨r, hr⟩ := queueFreeLoop_of_live fun j (hj : j ∈ List.range' i (i :: l).length) =>
        (⟨by
          rw [takeAll_blkMaxNum]
          exact (hlive j ((hmem j).mp hj)).1, by
          rw [hget, if_pos ((hmem j).mp hj)]
          simp⟩ : Live (takeAll s.rbb (i :: l)) j)
      obtain ⟨-, -, hset⟩ := queueFreeLoop_some hr
      refine ⟨r, hr, fun j _ => ?_⟩
      rw [hset, hdeq, ← hmem j]
      split
      · next hin => exact iff_of_true rfl (.inr hin)
      · next hin => exact ⟨.inl, fun hor => hor.resolve_right hin⟩

/-! ## Runs -/

/-- No other operation puts a block. -/
theorem put_back (h : Inv rbb) (hs : rbbStep rbb act = some rbb') (ha : ∀ b, act ≠ .put b) :
    rbb'.blkMaxNum = rbb.blkMaxNum ∧ ∀ i, (rbb'.blkSet i).status = .put →
      (rbb.blkSet i).status = .put := by
  have hset : ∀ (r : RtRbb) (b : Nat) (x : Status), x ≠ .put → ∀ i,
      ((r.setStatus b x).blkSet i).status = .put → (r.blkSet i).status = .put := by
    intro r b x hx i hi
    rw [setStatus_blkSet] at hi
    split at hi
    · exact absurd hi hx
    · exact hi
  cases act with
  | alloc n =>
    simp only [rbbStep] at hs
    split at hs
    · obtain ⟨⟨r, o⟩, hr, rfl⟩ := Option.map_eq_some_iff.mp hs
      rcases h.alloc_cases hr with ⟨k, a, -, -, -, rfl⟩ | ⟨rfl, -⟩
      · refine ⟨rfl, fun i hi => ?_⟩
        rw [initBlk_blkSet] at hi
        split at hi
        · cases hi
        · exact hi
      · exact ⟨rfl, fun i hi => hi⟩
    · cases hs
  | put b => exact absurd rfl (ha b)
  | get =>
    simp only [rbbStep, rtRbbBlkGet] at hs
    obtain rfl := Option.some.inj hs
    split
    · exact ⟨rfl, hset rbb _ .get (by decide)⟩
    · exact ⟨rfl, fun i hi => hi⟩
  | free b =>
    simp only [rbbStep, rtRbbBlkFree] at hs
    split at hs
    · split at hs
      · obtain rfl := Option.some.inj hs
        exact ⟨rfl, hset rbb b .unused (by decide)⟩
      · cases hs
    · cases hs
  | queueGet len q =>
    obtain rfl := Option.some.inj hs
    by_cases hn : ∃ i l, NextRun rbb len i l
    · obtain ⟨i, l, hn⟩ := hn
      rw [queueGet_spec h hn]
      refine ⟨takeAll_blkMaxNum, fun j hj => ?_⟩
      rw [takeAll_blkSet] at hj
      split at hj
      · cases hj
      · exact hj
    · have hnil : rbb.blkList.dropWhile (fun i => decide ((rbb.blkSet i).status ≠ .put)) = [] := by
        cases hd : rbb.blkList.dropWhile (fun i => decide ((rbb.blkSet i).status ≠ .put)) with
        | nil => rfl
        | cons i l =>
          obtain ⟨t, ht⟩ : ∃ t, NextRun rbb len i t := exists_nextRun hd
          exact absurd ⟨i, t, ht⟩ hn
      rw [rtRbbBlkQueueGet, queueGetLoop_skip, hnil]
      exact ⟨rfl, fun i hi => hi⟩
  | queueFree q =>
    obtain ⟨-, hmax, hall⟩ := queueFreeLoop_some hs
    refine ⟨hmax, fun i hi => ?_⟩
    rw [hall] at hi
    split at hi
    · cases hi
    · exact hi

theorem PutInv.step (h : PutInv s) (hs : putStep s act = some s') : PutInv s' := by
  obtain ⟨rbb, hr, rfl⟩ := Option.map_eq_some_iff.mp hs
  have hinv := h.inv.step hr
  by_cases ha : ∃ b, act = .put b
  · obtain ⟨b, rfl⟩ := ha
    simp only [rbbStep, rtRbbBlkPut] at hr
    split at hr
    · next hlt =>
      split at hr
      · next hst =>
        obtain rfl := Option.some.inj hr
        have hb : b ∉ s.puts := fun hm => by
          rw [h.put b hm] at hst
          cases hst
        have hnd : (s.puts ++ [b]).Nodup := List.nodup_append.mpr ⟨h.nodup,
          List.nodup_singleton b, fun i hi j hj he => hb <| by
            rw [← List.mem_singleton.mp hj, ← he]
            exact hi⟩
        refine ⟨hinv, hnd.filter _, fun i hi => ?_, fun i hi hput => ?_⟩
        · exact of_decide_eq_true (List.mem_filter.mp hi).2
        · refine List.mem_filter.mpr ⟨?_, decide_eq_true hput⟩
          rw [setStatus_blkSet] at hput
          split at hput
          · next he => exact List.mem_append_right _ (List.mem_singleton.mpr he)
          · exact List.mem_append_left _ (h.mem i hi hput)
      · cases hr
    · cases hr
  · have hputs : nextPuts s.puts rbb act =
        s.puts.filter fun i => decide ((rbb.blkSet i).status = .put) := by
      cases act with
      | put b => exact absurd ⟨b, rfl⟩ ha
      | _ => rfl
    obtain ⟨hmax, hback⟩ := put_back h.inv hr fun b he => ha ⟨b, he⟩
    rw [hputs]
    refine ⟨hinv, h.nodup.filter _, fun i hi => of_decide_eq_true (List.mem_filter.mp hi).2,
      fun i hi hput => List.mem_filter.mpr ⟨h.mem i ?_ (hback i hput), decide_eq_true hput⟩⟩
    rw [← hmax]
    exact hi

theorem init_putInv {buf bufSize blkMaxNum : Nat} {blockSet : Nat → RtRbbBlk}
    (hb : buf + bufSize < 4294967296) : PutInv ⟨rtRbbInit buf bufSize blockSet blkMaxNum, []⟩ := by
  refine ⟨(rtRbbInit_inv hb).1, List.nodup_nil, fun i hi => absurd hi List.not_mem_nil,
    fun i hi hput => ?_⟩
  have hst : ((rtRbbInit buf bufSize blockSet blkMaxNum).blkSet i).status = .unused := by
    show RtRbbBlk.status (if i < blkMaxNum then _ else _) = _
    rw [if_pos (show i < blkMaxNum from hi)]
  rw [hst] at hput
  cases hput

/-- **When a queue is what its caller may expect.** In every state of a run, a call of
`rt_rbb_blk_queue_get` that returns a size gives a queue of that size, with the bytes of the blocks
in the order in which they were put, that `rt_rbb_blk_queue_free` gives back, if and only if the
first block fits, the blocks are a slice of `blk_set`, and they lie one behind the other in the
order in which they were put. -/
theorem queue_ok_iff (buf bufSize blkMaxNum : Nat) (blockSet : Nat → RtRbbBlk)
    (hb : buf + bufSize < 4294967296) (acts : List Act) (s : PutOrder)
    (hx : exec putStep ⟨rtRbbInit buf bufSize blockSet blkMaxNum, []⟩ acts = some s)
    (len : Nat) (q : BlkQueue) :
    (0 < (s.rbb.rtRbbBlkQueueGet len q).2.1 →
      QueueOk s len (s.rbb.rtRbbBlkQueueGet len q).1 (s.rbb.rtRbbBlkQueueGet len q).2.1
        (s.rbb.rtRbbBlkQueueGet len q).2.2) ↔ Sliced s len := by
  have h : PutInv s := exec_inv (fun _ _ _ h hs => h.step hs) hx (init_putInv hb)
  by_cases hn : ∃ i l, NextRun s.rbb len i l
  · obtain ⟨i, l, hn⟩ := hn
    have hpos : 0 < total ((i :: l).map (run s.rbb)) :=
      Nat.lt_of_lt_of_le (h.inv.pos i (h.inv.listed i (hn.sublist.subset List.mem_cons_self)))
        (Nat.le_add_right _ _)
    rw [queueGet_spec h.inv hn]
    simp only [hpos, true_imp_iff, h.ok_iff hn]
    refine ⟨fun hok j m hm => ?_, fun hok => hok i l hn⟩
    -- the blocks that the call takes are those of every next run
    have he : i :: l = j :: m := by
      rw [← hn.dequeued h.inv.nodup, ← hm.dequeued h.inv.nodup]
      have hg := (queueGet_spec (q := q) h.inv hn).symm.trans (queueGet_spec h.inv hm)
      rw [(Prod.mk.inj hg).1]
    cases he
    exact hok
  · refine iff_of_true (fun hpos => absurd (exists_of_pos hpos) hn) fun i l hm => ?_
    exact absurd ⟨i, l, hm⟩ hn

/-- Block 2 takes the place of block 0 in `blk_set`, and comes behind block 1 in the list. -/
def slotRun : List Act := [.alloc 2, .alloc 2, .free 0, .alloc 2, .put 1, .put 0]

theorem queue_ok_iff_slots : ∃ s, exec putStep ⟨tenBytes, []⟩ slotRun = some s ∧
    ((0 < (s.rbb.rtRbbBlkQueueGet 10 ⟨0, 0⟩).2.1 →
      QueueOk s 10 (s.rbb.rtRbbBlkQueueGet 10 ⟨0, 0⟩).1 (s.rbb.rtRbbBlkQueueGet 10 ⟨0, 0⟩).2.1
        (s.rbb.rtRbbBlkQueueGet 10 ⟨0, 0⟩).2.2) ↔ Sliced s 10) := by
  have hrun : (exec putStep ⟨tenBytes, []⟩ slotRun).isSome = true := by decide +kernel
  obtain ⟨s, hx⟩ := Option.isSome_iff_exists.mp hrun
  exact ⟨s, hx, queue_ok_iff 64 10 4 _ (by decide) slotRun s hx 10 ⟨0, 0⟩⟩

/-- The call takes the blocks 1 and 0, of 4 bytes; the queue has the blocks 1 and 2, of 2 bytes, and
block 2 is not in use. -/
theorem slotRun_queue : ∃ s, exec putStep ⟨tenBytes, []⟩ slotRun = some s ∧
    (s.rbb.rtRbbBlkQueueGet 10 ⟨0, 0⟩).2.1 = 4 ∧
    ¬ QueueOk s 10 (s.rbb.rtRbbBlkQueueGet 10 ⟨0, 0⟩).1 (s.rbb.rtRbbBlkQueueGet 10 ⟨0, 0⟩).2.1
      (s.rbb.rtRbbBlkQueueGet 10 ⟨0, 0⟩).2.2 := by
  have hrun : (exec putStep ⟨tenBytes, []⟩ slotRun).map (fun s =>
      ((s.rbb.rtRbbBlkQueueGet 10 ⟨0, 0⟩).2.1,
        (s.rbb.rtRbbBlkQueueGet 10 ⟨0, 0⟩).1.rtRbbBlkQueueLen
          (s.rbb.rtRbbBlkQueueGet 10 ⟨0, 0⟩).2.2)) = some (4, some 2) := by decide +kernel
  obtain ⟨s, hx, he⟩ := Option.map_eq_some_iff.mp hrun
  obtain ⟨hn, hlen⟩ := Prod.mk.inj he
  refine ⟨s, hx, hn, fun hok => ?_⟩
  have hq := hok.queueLen
  rw [hlen, hn] at hq
  cases hq

end Tudu.RingBlk
