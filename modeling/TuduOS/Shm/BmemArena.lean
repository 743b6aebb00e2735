import Mathlib.Data.List.Count
import TuduOS.Shm.Arena

/-!
# A `bmem` refines the arena

`Bmem.arena b` reads the abstract arena off the block list. `BlockOk b` is the invariant of the
records:

* every listed entry of a table is an entry of a table of `bmem`, and marked used (`slot`);
* `used_num` counts the entries marked used (`count`), so `get_mem_block` returns no listed entry;
* the only block that may be unused is the one `bmem_create` made, behind all others (`layout`).

Under it `bmem_malloc` and `bmem_free` are the arena's (`bmemMalloc_cases`, `bmemFree_arena`).
-/

namespace Tudu.Shm

open Tiling Bmem

/-- The arena that the block list describes. -/
def Bmem.arena (b : Bmem) : Arena where
  start := b.start
  used := (b.blockNode.filter b.isUsed).map b.len
  room := ((b.blockNode.filter fun r => !b.isUsed r).map b.len).head?

/-- The block list: used blocks, then the unused one if it is still there. -/
structure Layout (b : Bmem) (us fs : List BlockRef) : Prop where
  node : b.blockNode = us ++ fs
  used : ∀ r ∈ us, b.isUsed r = true
  unused : fs = [] ∨ fs = [.first] ∧ b.isUsed .first = false

/-- The number of entries of a table that are marked used. -/
def usedCount (b : Bmem) (t : Nat) : Nat :=
  (List.range blockTabSize).countP fun i => b.isUsed (.slot t i)

/-- The tables: no two at one address, and `used_num` counts the used entries. -/
structure TabOk (b : Bmem) : Prop where
  tabs : b.tabHead.Nodup
  count : ∀ t ∈ b.tabHead, b.usedNum t = usedCount b t

/-- The invariant of the records (module doc). -/
structure BlockOk (b : Bmem) : Prop extends TabOk b where
  nodup : b.blockNode.Nodup
  slot : ∀ t i, .slot t i ∈ b.blockNode → t ∈ b.tabHead ∧ i < blockTabSize
  layout : ∃ us fs, Layout b us fs

variable {b b' : Bmem} {us fs : List BlockRef} {r n : BlockRef} {t i : Nat}

/-! ## Reading the arena off the layout -/

theorem Layout.arena (h : Layout b us fs) :
    b.arena = ⟨b.start, us.map b.len, (fs.map b.len).head?⟩ := by
  have hu : us.filter b.isUsed = us := List.filter_eq_self.mpr h.used
  have hu' : us.filter (fun r => !b.isUsed r) = [] :=
    List.filter_eq_nil_iff.mpr fun r hr => by simp [h.used r hr]
  unfold Bmem.arena
  rw [h.node, List.filter_append, List.filter_append, hu, hu']
  rcases h.unused with rfl | ⟨rfl, hf⟩
  · simp
  · simp [hf]

theorem Layout.extent (h : Layout b us fs) : b.arena.extent = total b.len b.blockNode := by
  rw [h.arena, h.node, total_append]
  simp only [Arena.extent, total, List.map_id]
  rcases h.unused with rfl | ⟨rfl, -⟩ <;> simp

theorem BlockOk.extent (h : BlockOk b) : b.arena.extent = total b.len b.blockNode := by
  obtain ⟨us, fs, hl⟩ := h.layout
  exact hl.extent

/-- A listed entry of a table is marked used. -/
theorem BlockOk.slot_used (h : BlockOk b) (hm : .slot t i ∈ b.blockNode) :
    b.isUsed (.slot t i) = true := by
  obtain ⟨us, fs, hl⟩ := h.layout
  rw [hl.node] at hm
  rcases List.mem_append.mp hm with hm | hm
  · exact hl.used _ hm
  · rcases hl.unused with rfl | ⟨rfl, -⟩ <;> simp at hm

/-! ## The marks of one entry -/

@[simp] theorem setBlock_len (r x) :
    (b.setBlock r x).len = Function.update b.len r x.len := by
  funext q
  by_cases h : q = r
  · subst h; simp [Bmem.len, setBlock]
  · simp [Bmem.len, setBlock, h]

@[simp] theorem setBlock_isUsed (r x) :
    (b.setBlock r x).isUsed = Function.update b.isUsed r (x.isUsed != 0) := by
  funext q
  by_cases h : q = r
  · subst h; simp [Bmem.isUsed, setBlock]
  · simp [Bmem.isUsed, setBlock, h]

/-- One more `true` among the first `N`. -/
theorem countP_range_update {N i : Nat} (f : Nat → Bool) (hi : i < N) (hf : f i = false) :
    (List.range N).countP (Function.update f i true) = (List.range N).countP f + 1 := by
  induction N with
  | zero => omega
  | succ N ih =>
    rw [List.range_succ, List.countP_append, List.countP_append]
    by_cases hN : i = N
    · subst hN
      have hsame : ∀ j ∈ List.range i, Function.update f i true j = f j := fun j hj =>
        Function.update_of_ne (Nat.ne_of_lt (List.mem_range.mp hj)) ..
      rw [List.countP_congr fun j hj => by rw [hsame j hj]]
      simp [hf]
    · have hlast : Function.update f i true N = f N := Function.update_of_ne (Ne.symm hN) ..
      rw [ih (by omega)]
      simp only [List.countP_singleton, hlast]
      omega

/-- Marking an entry that was not used counts it. -/
theorem usedCount_mark {x : BmemBlock} (hi : i < blockTabSize)
    (hf : b.isUsed (.slot t i) = false) (hx : x.isUsed ≠ 0) (t' : Nat) :
    usedCount (b.setBlock (.slot t i) x) t' = usedCount b t' + if t' = t then 1 else 0 := by
  unfold usedCount
  rw [setBlock_isUsed]
  by_cases ht : t' = t
  · subst ht
    rw [if_pos rfl, ← countP_range_update _ hi hf]
    congr 1
    funext j
    by_cases hj : j = i
    · subst hj; simpa using hx
    · simp [Function.update_of_ne, hj]
  · simp [Function.update_of_ne, ht]

/-- Unmarking a used entry discounts it. -/
theorem usedCount_unmark {x : BmemBlock} (hi : i < blockTabSize)
    (hf : b.isUsed (.slot t i) = true) (hx : x.isUsed = 0) (t' : Nat) :
    usedCount (b.setBlock (.slot t i) x) t' + (if t' = t then 1 else 0) = usedCount b t' := by
  have hx' : (b.block (.slot t i)).isUsed ≠ 0 := by simpa [Bmem.isUsed] using hf
  have h := usedCount_mark (b := b.setBlock (.slot t i) x) (t := t) hi (by simp [hx]) hx' t'
  rw [← h]
  congr 1
  simp [setBlock]

/-! ## `get_mem_block` -/

theorem getMemBlockScan_some {ts : List Nat} (h : getMemBlockScan b ts = some (t, i)) :
    t ∈ ts ∧ i < blockTabSize ∧ b.isUsed (.slot t i) = false := by
  induction ts with
  | nil => cases h
  | cons u ts ih =>
    have tail : getMemBlockScan b ts = some (t, i) →
        t ∈ u :: ts ∧ i < blockTabSize ∧ b.isUsed (.slot t i) = false := fun h =>
      ⟨List.mem_cons_of_mem _ (ih h).1, (ih h).2⟩
    unfold getMemBlockScan at h
    split at h
    · split at h
      · next j hj =>
        cases h
        exact ⟨List.mem_cons_self, List.mem_range.mp (List.mem_of_find?_eq_some hj),
          by simpa using List.find?_some hj⟩
      · exact tail h
    · exact tail h

/-- A table whose `used_num` is below its size has a free entry, and the scan finds one. -/
theorem getMemBlockScan_isSome {ts : List Nat} (hc : ∀ t ∈ ts, b.usedNum t = usedCount b t) :
    (getMemBlockScan b ts).isSome ↔ ∃ t ∈ ts, b.usedNum t < blockTabSize := by
  induction ts with
  | nil => simp [getMemBlockScan]
  | cons u ts ih =>
    have ih := ih fun t ht => hc t (List.mem_cons_of_mem _ ht)
    unfold getMemBlockScan
    by_cases hu : b.usedNum u < blockTabSize
    · have : ∃ i ∈ List.range blockTabSize, (!b.isUsed (.slot u i)) = true := by
        by_contra hno
        push Not at hno
        have hall : usedCount b u = (List.range blockTabSize).length :=
          List.countP_eq_length.mpr fun i hi => by simpa using hno i hi
        rw [List.length_range] at hall
        have := hc u List.mem_cons_self
        omega
      obtain ⟨i, hi⟩ := Option.isSome_iff_exists.mp (List.find?_isSome.mpr this)
      simp [hu, hi]
    · simp [hu, ih]

/-- A new table keeps the others' counts. -/
theorem TabOk.addTab (h : TabOk b) {c : Nat} (hc : c ∉ b.tabHead) : TabOk (addTab b c) := by
  refine ⟨List.nodup_cons.mpr ⟨hc, h.tabs⟩, fun t ht => ?_⟩
  by_cases htc : t = c
  · subst htc
    simp [Shm.addTab, usedCount, Bmem.isUsed]
  · have ht : t ∈ b.tabHead := (List.mem_cons.mp ht).resolve_left htc
    simpa [Shm.addTab, usedCount, Bmem.isUsed, htc] using h.count t ht

/-- What the operations leave as it was. -/
structure Frame (b b' : Bmem) : Prop where
  start : b'.start = b.start
  memSize : b'.memSize = b.memSize
  usedMemSize : b'.usedMemSize = b.usedMemSize

/-- What `get_mem_block` leaves when it returns entry `i` of table `t`: the entry is not in use, the
table counts it as if it were, and no listed block has changed. -/
structure Spare (b b' : Bmem) (t i : Nat) : Prop where
  tabs : b'.tabHead.Nodup
  mem : t ∈ b'.tabHead
  lt : i < blockTabSize
  free : b'.isUsed (.slot t i) = false
  count : ∀ u ∈ b'.tabHead, b'.usedNum u = usedCount b' u + if u = t then 1 else 0
  new : .slot t i ∉ b.blockNode
  keep : ∀ u ∈ b.tabHead, u ∈ b'.tabHead
  node : b'.blockNode = b.blockNode
  block : ∀ q, q ∈ b.blockNode ∨ q = .first → b'.block q = b.block q
  frame : Frame b b'

/-- The entry that a scan of the tables finds, counted. -/
theorem Spare.of_scan (h : TabOk b) (hs : getMemBlockScan b b.tabHead = some (t, i))
    (hn : .slot t i ∉ b.blockNode) : Spare b (b.setUsedNum t (b.usedNum t + 1)) t i := by
  obtain ⟨ht, hi, hf⟩ := getMemBlockScan_some hs
  refine ⟨h.tabs, ht, hi, hf, fun u hu => ?_, hn, fun _ h => h, rfl, fun _ _ => rfl, rfl, rfl, rfl⟩
  have hcount : usedCount (b.setUsedNum t (b.usedNum t + 1)) u = usedCount b u := rfl
  rw [hcount, ← h.count u hu]
  by_cases hut : u = t
  · subst hut; simp [setUsedNum]
  · simp [setUsedNum, hut]

theorem getMemBlock_spare {calloc : Option Nat} (h : BlockOk b)
    (hc : ∀ t ∈ b.tabHead, calloc ≠ some t) (hg : getMemBlock b calloc = some (n, b')) :
    ∃ t i, n = .slot t i ∧ Spare b b' t i := by
  have hfree : ∀ {t i}, b.isUsed (.slot t i) = false → BlockRef.slot t i ∉ b.blockNode :=
    fun hf hm => by simp [h.slot_used hm] at hf
  unfold getMemBlock at hg
  split at hg
  · next t i hs =>
    cases hg
    exact ⟨t, i, rfl, .of_scan h.toTabOk hs (hfree (getMemBlockScan_some hs).2.2)⟩
  · split at hg
    · cases hg
    next c =>
    have hcn : c ∉ b.tabHead := fun hm => hc c hm rfl
    have hold : ∀ t i, BlockRef.slot t i ∈ b.blockNode → t ≠ c := fun t i hm e =>
      hcn (e ▸ (h.slot t i hm).1)
    simp only at hg
    split at hg
    · next t i hs =>
      cases hg
      have hn : BlockRef.slot t i ∉ b.blockNode := by
        intro hm
        have hf := (getMemBlockScan_some hs).2.2
        simp only [addTab, Bmem.isUsed, if_neg (hold t i hm)] at hf
        exact hfree hf hm
      have hsp := Spare.of_scan (h.toTabOk.addTab hcn) hs hn
      refine ⟨t, i, rfl, hsp.tabs, hsp.mem, hsp.lt, hsp.free, hsp.count, hn,
        fun u hu => List.mem_cons_of_mem _ hu, rfl, ?_, rfl, rfl, rfl⟩
      rintro (_ | ⟨u, j⟩) hq
      · rfl
      · simp only [setUsedNum, addTab, if_neg (hold u j (hq.resolve_right (by simp)))]
    · cases hg

/-- `get_mem_block` succeeds when a table has a free entry or `rt_calloc` gives a new one. -/
theorem getMemBlock_isSome {calloc : Option Nat} (h : TabOk b)
    (hc : ∀ t ∈ b.tabHead, calloc ≠ some t) :
    (getMemBlock b calloc).isSome ↔
      calloc.isSome ∨ ∃ t ∈ b.tabHead, b.usedNum t < blockTabSize := by
  have hs := getMemBlockScan_isSome h.count
  unfold getMemBlock
  split
  · next t i he =>
    rw [he] at hs
    simpa using .inr (hs.mp rfl)
  · next he =>
    rw [he] at hs
    have hno : ¬ ∃ t ∈ b.tabHead, b.usedNum t < blockTabSize := fun hx => by simpa using hs.mpr hx
    cases calloc with
    | none => simpa using hno
    | some c =>
      have hcn : c ∉ b.tabHead := fun hm => hc c hm rfl
      have hnew : (getMemBlockScan (addTab b c) (addTab b c).tabHead).isSome :=
        (getMemBlockScan_isSome (h.addTab hcn).count).mpr
          ⟨c, List.mem_cons_self, by simp [addTab, blockTabSize]⟩
      obtain ⟨⟨t, i⟩, he'⟩ := Option.isSome_iff_exists.mp hnew
      simp [he']

/-! ## `bmem_malloc` -/

/-- The loop passes over the used blocks. -/
theorem bmemMallocLoop_used {size o : Nat} {calloc : Option Nat} (hu : ∀ r ∈ us, b.isUsed r = true)
    (hw : o + total b.len us < 2 ^ 32) :
    bmemMallocLoop b size calloc (us ++ fs) o =
      bmemMallocLoop b size calloc fs (o + total b.len us) := by
  induction us generalizing o with
  | nil => simp
  | cons r us ih =>
    rw [total_cons] at hw
    rw [List.cons_append, bmemMallocLoop, hu r List.mem_cons_self]
    simp only [Bool.not_true, Bool.false_and, Bool.false_eq_true, if_false]
    rw [Nat.mod_eq_of_lt (by omega), ih (fun q hq => hu q (List.mem_cons_of_mem _ hq)) (by omega),
      total_cons, Nat.add_assoc]

/-- The room's record is no used block's. -/
theorem BlockOk.first_not_mem (h : BlockOk b) (hl : Layout b us [.first]) : .first ∉ us := by
  intro hm
  have hd := h.nodup
  rw [hl.node] at hd
  exact (List.nodup_append.mp hd).2.2 _ hm _ List.mem_cons_self rfl

/-- A split: the new block stands in front of the room, and the room is shorter by its length. -/
theorem bmemSplit_ok {size : Nat} (h : BlockOk b) (hl : Layout b us [.first])
    (hs : Spare b b' t i) (hw : size < 2 ^ 16) :
    let s := bmemSplit b' .first (.slot t i) size
    BlockOk s ∧ Layout s (us ++ [.slot t i]) [.first] ∧ s.len .first = b.len .first - size ∧
      (us ++ [BlockRef.slot t i]).map s.len = us.map b.len ++ [size] ∧ Frame b s := by
  intro s
  have hnot := h.first_not_mem hl
  have hnew : .slot t i ∉ us := fun hm => hs.new (hl.node ▸ List.mem_append_left _ hm)
  have hnode : s.blockNode = us ++ [.slot t i] ++ [.first] := by
    show listInsertBefore BlockRef.first (BlockRef.slot t i) b'.blockNode = _
    rw [hs.node, hl.node, listInsertBefore_append hnot, List.append_assoc]
    rfl
  have hkeep : ∀ q ∈ us, s.block q = b.block q := by
    intro q hq
    have h1 : q ≠ .first := fun e => hnot (e ▸ hq)
    have h2 : q ≠ .slot t i := fun e => hnew (e ▸ hq)
    rw [← hs.block q (.inl (hl.node ▸ List.mem_append_left _ hq))]
    simp [s, bmemSplit, setBlock, h1, h2]
  have hfirst : s.block .first = { b.block .first with len := b.len .first - size } := by
    simp [s, bmemSplit, setBlock, Bmem.len, hs.block .first (.inr rfl)]
  have hslot : s.block (.slot t i) = ⟨1, size % 2 ^ 16⟩ := by
    simp [s, bmemSplit, setBlock]
  have hcount : ∀ u ∈ s.tabHead, s.usedNum u = usedCount s u := by
    intro u hu
    have e : usedCount s u = usedCount (b'.setBlock (.slot t i) ⟨1, size % 2 ^ 16⟩) u := by
      simp [s, bmemSplit, usedCount, setBlock, Bmem.isUsed]
    rw [e, usedCount_mark hs.lt hs.free (by simp)]
    exact hs.count u hu
  have hunused : s.isUsed .first = false := by
    have hu : b.isUsed .first = false := (hl.unused.resolve_left (by simp)).2
    simpa [Bmem.isUsed, hfirst] using hu
  have hused : ∀ q ∈ us ++ [.slot t i], s.isUsed q = true := by
    intro q hq
    rcases List.mem_append.mp hq with hq | hq
    · have := hl.used q hq
      rwa [Bmem.isUsed, hkeep q hq]
    · rw [List.mem_singleton.mp hq, Bmem.isUsed, hslot]
      rfl
  have hlay : Layout s (us ++ [.slot t i]) [.first] := ⟨hnode, hused, .inr ⟨rfl, hunused⟩⟩
  refine ⟨⟨⟨hs.tabs, hcount⟩, ?_, ?_, _, _, hlay⟩, hlay, ?_, ?_, hs.frame.1, hs.frame.2, hs.frame.3⟩
  · have hd := h.nodup
    rw [hl.node] at hd
    rw [hnode, List.append_assoc]
    exact List.perm_middle.nodup_iff.mpr (List.nodup_cons.mpr ⟨fun hm => hs.new (hl.node ▸ hm), hd⟩)
  · intro u j hm
    rw [hnode] at hm
    rcases List.mem_append.mp hm with hm | hm
    · rcases List.mem_append.mp hm with hm | hm
      · have := h.slot u j (hl.node ▸ List.mem_append_left _ hm)
        exact ⟨hs.keep u this.1, this.2⟩
      · cases List.mem_singleton.mp hm
        exact ⟨hs.mem, hs.lt⟩
    · simp at hm
  · rw [Bmem.len, hfirst]
  · have hlen : ∀ q ∈ us, s.len q = b.len q := fun q hq => by rw [Bmem.len, hkeep q hq, Bmem.len]
    rw [List.map_append, List.map_congr_left hlen]
    simp only [List.map_cons, List.map_nil, Bmem.len, hslot, Nat.mod_eq_of_lt hw]

/-- The room becomes a used block. -/
theorem bmemMark_ok (h : BlockOk b) (hl : Layout b us [.first]) :
    let s := b.setBlock .first { b.block .first with isUsed := 1 }
    BlockOk s ∧ s.arena = ⟨b.start, us.map b.len ++ [b.len .first], none⟩ := by
  intro s
  have hlen : s.len = b.len := by
    rw [setBlock_len]
    exact Function.update_eq_self _ _
  have hused : ∀ q, s.isUsed q = if q = .first then true else b.isUsed q := by
    intro q
    by_cases hq : q = .first <;> simp [s, hq]
  have hcount : ∀ u, usedCount s u = usedCount b u := fun u => by simp [usedCount, hused]
  have hlay : Layout s (us ++ [.first]) [] := by
    refine ⟨by rw [List.append_nil]; exact hl.node, fun q hq => ?_, .inl rfl⟩
    rw [hused]
    split
    · rfl
    · next hq' =>
      exact hl.used q ((List.mem_append.mp hq).resolve_right fun hm =>
        hq' (List.mem_singleton.mp hm))
  refine ⟨⟨⟨h.tabs, fun u hu => (h.count u hu).trans (hcount u).symm⟩, h.nodup, h.slot, _, _, hlay⟩,
    ?_⟩
  rw [hlay.arena, hlen, List.map_append]
  rfl

/-- The end of `bmem_malloc`: a room of just the size becomes a used block. -/
theorem bmemTake_ok (size : Nat) (h : BlockOk b) (hl : Layout b us [.first]) :
    let s := bmemTake b .first size
    BlockOk s ∧ s.memSize = b.memSize ∧ s.usedMemSize = (b.usedMemSize + size) % 2 ^ 32 ∧
      s.arena = if b.len .first = size then ⟨b.start, us.map b.len ++ [size], none⟩
        else ⟨b.start, us.map b.len, some (b.len .first)⟩ := by
  have hcount : ∀ {c : Bmem}, BlockOk c → BlockOk (bmemCount c size) := fun hc =>
    ⟨⟨hc.tabs, hc.count⟩, hc.nodup, hc.slot, hc.layout.imp fun _ h => h.imp fun _ h =>
      ⟨h.node, h.used, h.unused⟩⟩
  intro s
  by_cases hsize : b.len .first = size
  · obtain ⟨hok, ha⟩ := bmemMark_ok h hl
    rw [if_pos hsize, ← hsize, ← ha]
    have hs : s = bmemCount (b.setBlock .first { b.block .first with isUsed := 1 }) size := by
      simp only [s, bmemTake, if_pos hsize]
    rw [hs, hsize]
    exact ⟨hcount hok, rfl, rfl, rfl⟩
  · have hs : s = bmemCount b size := by simp only [s, bmemTake, if_neg hsize]
    rw [if_neg hsize, hs]
    exact ⟨hcount h, rfl, rfl, hl.arena⟩

/-- `bmem_malloc` is the arena's `malloc`, except that a split may fail for want of a record. -/
theorem bmemMalloc_cases (size : Nat) {calloc : Option Nat} (h : BlockOk b)
    (hw : b.arena.extent < 2 ^ 16) (hc : ∀ t ∈ b.tabHead, calloc ≠ some t) :
    (bmemMalloc b size calloc = (none, b) ∧
      ∀ m ∈ b.arena.room, size ≤ m → size ≤ b.memSize → size < m ∧ getMemBlock b calloc = none) ∨
    ∃ addr b', bmemMalloc b size calloc = (some addr, b') ∧ BlockOk b' ∧
      b.arena.malloc size = some (addr, b'.arena) ∧ b'.memSize = b.memSize ∧
      b'.usedMemSize = (b.usedMemSize + size) % 2 ^ 32 ∧
      ∀ m ∈ b.arena.room, size < m → (getMemBlock b calloc).isSome := by
  obtain ⟨us, fs, hl⟩ := h.layout
  have hsum : total b.len us + total b.len fs < 2 ^ 16 := by
    rw [← total_append, ← hl.node, ← h.extent]
    exact hw
  unfold bmemMalloc
  by_cases hm : b.memSize ≥ size
  · rw [if_pos hm, hl.node, bmemMallocLoop_used hl.used (by omega), Nat.zero_add, hl.arena]
    rcases hl.unused with rfl | ⟨rfl, hf⟩
    · exact .inl ⟨rfl, by simp⟩
    have hroom : b.len .first < 2 ^ 16 := by
      simp only [total_cons, total_nil] at hsum
      omega
    simp only [bmemMallocLoop, hf, Bool.not_false, Bool.true_and, decide_eq_true_eq]
    by_cases hfit : b.len .first ≥ size
    · rw [if_pos hfit]
      unfold bmemMallocAt
      have htop : b.start + total b.len us = Arena.top ⟨b.start, us.map b.len, b.len .first⟩ := by
        simp [Arena.top, total]
      by_cases hgt : b.len .first > size
      · rw [if_pos hgt]
        cases hg : getMemBlock b calloc with
        | none =>
          refine .inl ⟨rfl, fun m hm _ _ => ⟨?_, rfl⟩⟩
          simp only [List.map_cons, List.head?_cons, Option.mem_some_iff] at hm
          omega
        | some x =>
          obtain ⟨n, b'⟩ := x
          obtain ⟨t, i, rfl, hsp⟩ := getMemBlock_spare h hc hg
          obtain ⟨hok, hlay, hlen, hmap, hfr⟩ :=
            bmemSplit_ok h hl hsp (Nat.lt_of_le_of_lt hfit hroom)
          obtain ⟨hok', hms, hus, ha⟩ := bmemTake_ok size hok hlay
          refine .inr ⟨_, _, rfl, hok', ?_, hms.trans hfr.memSize, hfr.usedMemSize ▸ hus,
            fun _ _ _ => rfl⟩
          rw [ha, hlen, hmap, hfr.start, htop]
          simp only [Arena.malloc, List.map_cons, List.head?_cons, Option.bind_some,
            if_neg (Nat.not_lt.mpr hfit), if_neg (Nat.ne_of_gt hgt)]
          split_ifs <;> simp
      · have hsize : b.len .first = size := by omega
        rw [if_neg hgt]
        obtain ⟨hok, hms, hus, ha⟩ := bmemTake_ok size h hl
        refine .inr ⟨_, _, rfl, hok, ?_, hms, hus, fun m hm hlt => ?_⟩
        · rw [ha, if_pos hsize, htop, hsize]
          simp [Arena.malloc, hsize]
        · simp only [List.map_cons, List.head?_cons, Option.mem_some_iff] at hm
          omega
    · rw [if_neg hfit]
      refine .inl ⟨rfl, fun m hm hle => absurd hle ?_⟩
      simp only [List.map_cons, List.head?_cons, Option.mem_some_iff] at hm
      omega
  · rw [if_neg hm]
    exact .inl ⟨rfl, fun _ _ _ h => absurd h hm⟩

/-! ## `bmem_free` -/

theorem bmemFindLoop_eq {addr o : Nat} {l : List BlockRef} (hw : o + total b.len l < 2 ^ 32) :
    bmemFindLoop b addr l o = firstAt b.len addr (b.start + o) l := by
  induction l generalizing o with
  | nil => rfl
  | cons r l ih =>
    rw [total_cons] at hw
    rw [bmemFindLoop, firstAt, Nat.mod_eq_of_lt (by omega), ih (by omega), Nat.add_assoc]

/-- What `put_mem_block` leaves when its block `r` leaves the block list. -/
structure Released (b b' : Bmem) (r : BlockRef) : Prop where
  tab : TabOk b'
  len : b'.len = b.len
  used : ∀ q, q ≠ r → b'.isUsed q = b.isUsed q
  keep : ∀ t i, .slot t i ∈ b.blockNode → .slot t i ≠ r → t ∈ b'.tabHead
  node : b'.blockNode = b.blockNode
  frame : Frame b b'

theorem putMemBlock_released (junk : Nat) (h : BlockOk b) (hr : r ∈ b.blockNode) :
    Released b (putMemBlock b r junk).2 r := by
  unfold putMemBlock
  split
  · exact ⟨h.toTabOk, rfl, fun _ _ => rfl, fun t i hm _ => (h.slot t i hm).1, rfl, rfl, rfl, rfl⟩
  next t hf =>
  have hany := List.find?_some hf
  simp only [List.any_eq_true, Bool.and_eq_true, beq_iff_eq, List.mem_range] at hany
  obtain ⟨i, hi, -, rfl⟩ := hany
  have ht := (h.slot t i hr).1
  simp only
  set b1 := b.setBlock (.slot t i) { b.block (.slot t i) with isUsed := 0 } with hb1
  have hdown : ∀ u, usedCount b1 u + (if u = t then 1 else 0) = usedCount b u :=
    usedCount_unmark hi (h.slot_used hr) rfl
  have hlen : b1.len = b.len := by
    rw [hb1, setBlock_len]
    exact Function.update_eq_self _ _
  have hused : ∀ q, q ≠ .slot t i → b1.isUsed q = b.isUsed q := fun q hq => by
    rw [hb1, setBlock_isUsed, Function.update_of_ne hq]
  have hnum : ∀ u ∈ b.tabHead,
      (b1.setUsedNum t (b1.usedNum t - 1)).usedNum u = usedCount b1 u := by
    intro u hu
    have h1 := hdown u
    have h2 := h.count u hu
    show Function.update b.usedNum t (b.usedNum t - 1) u = _
    by_cases hut : u = t
    · subst hut
      rw [Function.update_self]
      simp only [if_true] at h1
      omega
    · rw [Function.update_of_ne hut]
      simp only [if_neg hut] at h1
      omega
  split
  · next h0 =>
    refine ⟨⟨h.tabs.erase t, fun u hu => hnum u (List.mem_of_mem_erase hu)⟩, hlen, hused, ?_, rfl,
      rfl, rfl, rfl⟩
    -- the table is freed only when no other entry of it is used
    intro u j hm hne
    refine (List.mem_erase_of_ne fun e => ?_).mpr (h.slot u j hm).1
    subst e
    have hz : usedCount b1 u = 0 := (hnum u ht).symm.trans h0
    have := List.countP_eq_zero.mp hz j (List.mem_range.mpr (h.slot u j hm).2)
    rw [hused _ hne, h.slot_used hm] at this
    exact this rfl
  · exact ⟨⟨h.tabs, hnum⟩, hlen, hused, fun u j hm _ => (h.slot u j hm).1, rfl, rfl, rfl, rfl⟩

/-- A block leaves the list: used blocks `us'` and the room `fs'` are left. -/
theorem Released.erase {us' fs' : List BlockRef} (h : BlockOk b) (hl : Layout b us fs)
    (hr : Released b b' r) (hn : b.blockNode.erase r = us' ++ fs') (hus : us' ⊆ us)
    (hfs : fs' = [] ∨ fs' = fs) :
    let s := { b' with blockNode := b'.blockNode.erase r }
    BlockOk s ∧ s.arena = ⟨b.start, us'.map b.len, (fs'.map b.len).head?⟩ := by
  intro s
  have hd := h.nodup
  have hnode : s.blockNode = us' ++ fs' := by rw [← hn, ← hr.node]
  have hsub : ∀ q ∈ us' ++ fs', q ∈ b.blockNode ∧ q ≠ r := fun q hq => by
    rw [← hn] at hq
    exact ⟨List.mem_of_mem_erase hq, ((List.Nodup.mem_erase_iff hd).mp hq).1⟩
  have hlay : Layout s us' fs' := by
    refine ⟨hnode, fun q hq => ?_, ?_⟩
    · exact (hr.used q (hsub q (List.mem_append_left _ hq)).2).trans (hl.used q (hus hq))
    · rcases hfs with rfl | rfl
      · exact .inl rfl
      · rcases hl.unused with rfl | ⟨rfl, hf⟩
        · exact .inl rfl
        · have hne := (hsub .first (List.mem_append_right _ List.mem_cons_self)).2
          exact .inr ⟨rfl, (hr.used _ hne).trans hf⟩
  refine ⟨⟨⟨hr.tab.tabs, hr.tab.count⟩, ?_, fun t i hm => ?_, _, _, hlay⟩, ?_⟩
  · rw [hnode, ← hn]
    exact hd.erase r
  · obtain ⟨hm, hne⟩ := hsub _ (hnode ▸ hm)
    exact ⟨hr.keep t i hm hne, (h.slot t i hm).2⟩
  · rw [hlay.arena, show s.len = b.len from hr.len, show s.start = b.start from hr.frame.start]

/-- `bmem_free` is the arena's `free`. -/
theorem bmemFree_arena (addr junk : Nat) (h : BlockOk b) (hw : b.arena.extent < 2 ^ 32) :
    let s := (bmemFree b addr junk).2
    BlockOk s ∧ s.arena = b.arena.free addr ∧ s.memSize = b.memSize ∧
      s.usedMemSize = b.usedMemSize := by
  obtain ⟨us, fs, hl⟩ := h.layout
  have hfind : bmemFind b addr = (firstAt b.len addr b.start us).or
      (firstAt b.len addr (b.start + total b.len us) fs) := by
    rw [bmemFind, bmemFindLoop_eq (by rw [← h.extent]; omega), hl.node, Nat.add_zero,
      firstAt_append]
  have htop : b.arena.top = b.start + total b.len us := by simp [hl.arena, Arena.top, total]
  have hfree : b.arena.free addr = if (firstAt b.len addr b.start us).isSome then
      ⟨b.start, (dropAt b.len addr b.start us).map b.len, (fs.map b.len).head?⟩
      else if addr = b.start + total b.len us then ⟨b.start, us.map b.len, none⟩
      else b.arena := by
    rw [Arena.free, htop, hl.arena]
    simp only [firstAt_map, dropAt_map, Option.isSome_map]
  unfold bmemFree
  rw [hfind, hfree]
  cases hu : firstAt b.len addr b.start us with
  | some r =>
    have hrel := putMemBlock_released junk h
      (hl.node ▸ List.mem_append_left _ (mem_of_firstAt hu))
    have hn : b.blockNode.erase r = dropAt b.len addr b.start us ++ fs := by
      have hall : firstAt b.len addr b.start (us ++ fs) = some r := by
        rw [firstAt_append, hu, Option.some_or]
      rw [erase_firstAt h.nodup (hl.node ▸ hall), hl.node, dropAt_append, hu]
      rfl
    obtain ⟨hok, ha⟩ := hrel.erase h hl hn (dropAt_subset ..) (.inr rfl)
    exact ⟨hok, ha, hrel.frame.memSize, hrel.frame.usedMemSize⟩
  | none =>
    rcases hl.unused with rfl | ⟨rfl, -⟩
    · -- no block at `addr`
      refine ⟨h, ?_, rfl, rfl⟩
      show b.arena = if addr = b.start + total b.len us then ⟨b.start, us.map b.len, none⟩
        else b.arena
      rw [hl.arena]
      split <;> rfl
    · by_cases ha : addr = b.start + total b.len us
      · -- the room
        have hrel := putMemBlock_released junk h
          (hl.node ▸ List.mem_append_right _ List.mem_cons_self)
        have hn : b.blockNode.erase .first = us ++ [] := by
          rw [hl.node, List.erase_append_right _ (h.first_not_mem hl), List.erase_cons_head]
        obtain ⟨hok, ha'⟩ := hrel.erase h hl hn (List.Subset.refl _) (.inl rfl)
        simp only [firstAt, ha, if_true, Option.none_or, Option.isSome_none, Bool.false_eq_true,
          if_false]
        exact ⟨hok, ha', hrel.frame.memSize, hrel.frame.usedMemSize⟩
      · simp only [firstAt, ha, if_false, Option.none_or, Option.isSome_none, Bool.false_eq_true]
        exact ⟨h, trivial, trivial, trivial⟩

/-! ## Calls -/

variable {s s' : BmemRun}

/-- What a call of `bmem_malloc` does. -/
theorem bmemStep_malloc {size : Nat} {calloc : Option Nat}
    (hs : bmemStep s (.malloc size calloc) = some s') :
    (∀ t ∈ s.bmem.tabHead, calloc ≠ some t) ∧
      s' = ⟨(bmemMalloc s.bmem size calloc).2, match (bmemMalloc s.bmem size calloc).1 with
        | none => s.live
        | some addr => ⟨addr, size⟩ :: s.live⟩ := by
  simp only [bmemStep] at hs
  split at hs
  · cases hs
  · next hc => exact ⟨fun t ht e => hc ⟨t, ht, e⟩, (Option.some.inj hs).symm⟩

/-- What a `bmem_free` of a held allocation does. -/
theorem bmemStep_free {a : Alloc} {junk : Nat} (hs : bmemStep s (.free a junk) = some s') :
    a ∈ s.live ∧ s' = ⟨(bmemFree s.bmem a.addr junk).2, s.live.erase a⟩ := by
  simp only [bmemStep] at hs
  split at hs
  · exact ⟨‹_›, (Option.some.inj hs).symm⟩
  · cases hs

/-! ## The arena as created -/

theorem bmemCreate_ok (start size : Nat) : BlockOk (bmemCreate start size) where
  tabs := List.nodup_nil
  count := by simp [bmemCreate]
  nodup := by simp [bmemCreate]
  slot := by simp [bmemCreate]
  layout := ⟨[], [.first], rfl, by simp, .inr ⟨rfl, rfl⟩⟩

end Tudu.Shm
