import TuduOS.Finsh.HeapRun

/-!
# The strings of a line (`finsh_node.c`)

A string literal gets a block of the heap as soon as the parser has seen it. Its pointer is in a
node of the tree, then in the code, and an assignment may put it, or a pointer into the string, into
a variable. The collector knows the variables only: `strings_safe_iff` says when no string is lost.

* `lineStep`: a string literal is parsed, or a line has been executed. What the variables are then
  is a parameter. The name table of the nodes, whose end is an error without a call of the heap, is
  left out.
* `vars`: the values of the variables in use, as far as they point into the heap.
* `data`: the bytes behind the headers.
-/

namespace Tudu.Finsh

open Blocks Chain Lts

/-- `FINSH_STRING_MAX` -/
def finshStringMax : Nat := 128

/-- The string of a token. -/
abbrev TokenString := {l : List Nat // l.length < finshStringMax}

structure StringState where
  heap : FinshHeap
  data : Nat → Nat
  /-- The strings of the nodes, or of the code, of this line. -/
  nodes : List Nat
  vars : List Nat

/-- `memset(ptr, 0, n)` -/
def memsetZero (data : Nat → Nat) (ptr n : Nat) : Nat → Nat :=
  fun x => if ptr ≤ x ∧ x < ptr + n then 0 else data x

/-- `strncpy(ptr, s, strlen(s))`, and the null byte behind it. -/
def strncpy (data : Nat → Nat) (ptr : Nat) (s : List Nat) : Nat → Nat :=
  fun x => if ptr ≤ x ∧ x ≤ ptr + s.length then s.getD (x - ptr) 0 else data x

/-- The pointer that `finsh_heap_allocate` returns is written through as it is. -/
def finshNodeNewString (s : StringState) (str : TokenString) : Option (Option Nat × StringState) :=
  match finshHeapAllocate s.heap (str.val.length + 1) fun p => decide (p ∈ s.vars) with
  | none => none
  | some (none, h) => some (none, { s with heap := h })
  | some (some ptr, h) =>
    some (some ptr, { s with
      heap := h
      data := strncpy (memsetZero s.data ptr (heapAlignSize (str.val.length + 1))) ptr str.val
      nodes := ptr :: s.nodes })

inductive LineAct where
  | newString (str : TokenString)
  | execute (vars : List Nat)

/-- A write through `NULL` is a fault. -/
def lineStep (s : StringState) : LineAct → Option StringState
  | .newString str =>
    match finshNodeNewString s str with
    | some (some _, s') => some s'
    | _ => none
  | .execute vars => some { s with nodes := [], vars := vars }

def stringInit : StringState := ⟨finshHeapInit, fun _ => 0, [], []⟩

/-! ## What is wanted -/

/-- The block `b` is in the allocate list. -/
def Allocated (s : StringState) (b : Nat) : Prop :=
  ∃ A, IsChain s.heap.next s.heap.allocateList A ∧ b ∈ A

/-- A node, the code or a variable refers to the string in the block `b`. -/
def Referenced (s : StringState) (b : Nat) : Prop :=
  Allocated s b ∧ (b + headerSize ∈ s.nodes ∨
    ∃ v ∈ s.vars, b + headerSize ≤ v ∧ v < b + blockSize s.heap.length b)

/-- The block `b` is not freed, and not overwritten, by the call that has returned `ptr`. -/
structure Kept (s s' : StringState) (ptr b : Nat) : Prop where
  allocated : Allocated s' b
  ne : ptr ≠ b + headerSize
  length : s'.heap.length b = s.heap.length b
  data : ∀ x, b + headerSize ≤ x → x < b + blockSize s.heap.length b → s'.data x = s.data x

/-- No string that is referred to is lost, and `NULL` is not written through. -/
def StepSafe (s : StringState) : LineAct → Prop
  | .newString str => ∃ ptr s', finshNodeNewString s str = some (some ptr, s') ∧
      ∀ b, Referenced s b → Kept s s' ptr b
  | .execute _ => True

/-! ## When it holds -/

/-- A free block is long enough for the first search of `finsh_heap_allocate`. -/
def FirstFit (s : StringState) (size : Nat) : Prop :=
  ∃ F, IsChain s.heap.next s.heap.freeList F ∧ Fits s.heap F size

/-- The blocks whose strings a variable points to leave a gap for a block of `size` bytes, and for
the header of what is left. -/
def RoomBeside (s : StringState) (size : Nat) : Prop :=
  ∃ a, a + heapAlignSize size + 2 * headerSize ≤ finshHeapMax ∧
    ∀ b, Allocated s b → b + headerSize ∈ s.vars →
      b + blockSize s.heap.length b ≤ a ∨ a + heapAlignSize size + 2 * headerSize ≤ b

/-- A string is found room for at once, or else everything that is referred to is what a variable
points to, and there is room beside that. -/
def StepCond (s : StringState) : LineAct → Prop
  | .newString str => FirstFit s (str.val.length + 1) ∨
      (∀ b, Referenced s b → b + headerSize ∈ s.vars) ∧ RoomBeside s (str.val.length + 1)
  | .execute _ => True

/-! ## One string -/

section Step

variable {s : StringState} {l : List Nat} {used : Nat → Bool} {str : TokenString} {b : Nat}

theorem allocated_iff (hi : HeapInv s.heap l used) : Allocated s b ↔ b ∈ l.filter used := by
  constructor
  · rintro ⟨A, hA, hb⟩
    rw [hA.unique hi.alloc] at hb
    exact hb
  · intro hb
    exact ⟨_, hi.alloc, hb⟩

theorem firstFit_iff {size : Nat} (hi : HeapInv s.heap l used) :
    FirstFit s size ↔ Fits s.heap (l.filter fun c => !used c) size := by
  constructor
  · rintro ⟨F, hF, hfit⟩
    rw [hF.unique hi.free] at hfit
    exact hfit
  · intro hfit
    exact ⟨_, hi.free, hfit⟩

theorem size_lt (str : TokenString) : str.val.length + 1 < 2147483648 := by
  have hlen : str.val.length < 128 := str.property
  omega

/-- The bytes outside the block that the string is put into. -/
theorem copied_of_outside {data : Nat → Nat} {ptr x : Nat}
    (hx : x < ptr ∨ ptr + heapAlignSize (str.val.length + 1) ≤ x) :
    strncpy (memsetZero data ptr (heapAlignSize (str.val.length + 1))) ptr str.val x = data x := by
  have hsize := (heapAlignSize_spec (size_lt str)).1
  unfold strncpy memsetZero
  rw [if_neg (by omega), if_neg (by omega)]

/-- Where the new block is not one that was referred to, all of them are kept. -/
theorem kept_of_handsOut {h' : FinshHeap} {l' A : List Nat} {used' : Nat → Bool} {b0 : Nat}
    (hi' : HeapInv h' l' used')
    (hout : HandsOut s.heap A b0 (heapAlignSize (str.val.length + 1)) h' (l'.filter used'))
    (hb : b ∈ A) {s' : StringState} (hheap : s'.heap = h')
    (hdata : s'.data = strncpy (memsetZero s.data (b0 + headerSize)
      (heapAlignSize (str.val.length + 1))) (b0 + headerSize) str.val) :
    Kept s s' (b0 + headerSize) b := by
  have hne : b ≠ b0 := by
    rintro rfl
    exact hout.new hb
  have hb' := (hout.mem b).mpr (Or.inr hb)
  have hb0 := (hout.mem b0).mpr (Or.inl rfl)
  have hdisj := hi'.tiles.disjoint (blockSize_pos _) (List.mem_filter.mp hb').1
    (List.mem_filter.mp hb0).1 hne
  rw [blockSize, blockSize, hout.keep b hb, hout.length] at hdisj
  subst hheap
  refine ⟨(allocated_iff hi').mpr hb', ?_, hout.keep b hb, fun x hx hxe => ?_⟩
  · omega
  · rw [blockSize] at hxe
    rw [hdata]
    exact copied_of_outside (by omega)

/-- After a collection that has left no room, there was none beside the blocks that stay. -/
theorem no_room {h' : FinshHeap} {l' : List Nat} {used' : Nat → Bool} {size : Nat}
    (hi' : HeapInv h' l' used')
    (hfull : ∀ c ∈ l', used' c = false → h'.length c < size + headerSize) (a : Nat)
    (ha : a + size + 2 * headerSize ≤ finshHeapMax) :
    ∃ b ∈ l'.filter used', ¬ (b + blockSize h'.length b ≤ a ∨ a + size + 2 * headerSize ≤ b) := by
  have hhead : headerSize = 8 := rfl
  obtain ⟨c, hc, hca, hac⟩ := hi'.tiles.exists_mem (Nat.zero_le a) (by omega : a < finshHeapMax)
  cases hu : used' c with
  | true => exact ⟨c, List.mem_filter.mpr ⟨hc, hu⟩, by omega⟩
  | false =>
    -- the free block is too short, so the next one, which is in use, lies in the gap
    have hlen := hfull c hc hu
    have hsize : blockSize h'.length c = headerSize + h'.length c := rfl
    have hend : c + blockSize h'.length c ∈ l' := hi'.tiles.mem_next hc (by omega)
    have huse := (hi'.apart c hc hend).resolve_left (by rw [hu]; exact Bool.false_ne_true)
    exact ⟨_, List.mem_filter.mpr ⟨hend, huse⟩, by
      have hpos := blockSize_pos h'.length (c + blockSize h'.length c)
      omega⟩

/-- The block that was handed out, and the free one behind it, lie beside the others. -/
theorem room_of_handsOut {h h' : FinshHeap} {l' A : List Nat} {used' : Nat → Bool} {b0 size : Nat}
    (hi' : HeapInv h' l' used') (hout : HandsOut h A b0 size h' (l'.filter used')) :
    b0 + size + 2 * headerSize ≤ finshHeapMax ∧
      ∀ b ∈ A, b + blockSize h.length b ≤ b0 ∨ b0 + size + 2 * headerSize ≤ b := by
  have hb0 := (hout.mem b0).mpr (Or.inl rfl)
  obtain ⟨hb₀l, hb₀u⟩ := List.mem_filter.mp hb0
  have hsize : blockSize h'.length b0 = headerSize + size := by rw [blockSize, hout.length]
  have hlast : b0 + blockSize h'.length b0 ≠ finshHeapMax := by
    intro hend
    have hfree := hi'.last b0 hb₀l hend
    rw [hb₀u] at hfree
    cases hfree
  have hn := hi'.tiles.mem_next hb₀l hlast
  have hnsize : headerSize ≤ blockSize h'.length (b0 + blockSize h'.length b0) :=
    Nat.le_add_right _ _
  have hnend := (hi'.tiles.mem_bounds hn).2
  refine ⟨by omega, fun b hb => ?_⟩
  have hb' := (hout.mem b).mpr (Or.inr hb)
  have hne : b ≠ b0 := by
    rintro rfl
    exact hout.new hb
  have hnen : b ≠ b0 + blockSize h'.length b0 := by
    rintro rfl
    refine hout.behind ?_
    rw [hsize, ← Nat.add_assoc] at hb'
    exact hb'
  have hbl := (List.mem_filter.mp hb').1
  have hdisj := hi'.tiles.disjoint (blockSize_pos _) hbl hb₀l hne
  have hdisj' := hi'.tiles.disjoint (blockSize_pos _) hbl hn hnen
  have hbsize : blockSize h'.length b = blockSize h.length b := by
    rw [blockSize, blockSize, hout.keep b hb]
  omega

/-- **One string literal.** -/
theorem newString_safe_iff (hi : HeapInv s.heap l used) :
    StepSafe s (.newString str) ↔ StepCond s (.newString str) := by
  obtain ⟨r, h', l', used', A, hrun, hi', hA, hout⟩ :=
    finshHeapAllocate_inv (fun p => decide (p ∈ s.vars)) hi (size_lt str)
  have hnode : ∀ ptr s', finshNodeNewString s str = some (some ptr, s') ↔
      r = some ptr ∧ s' = { s with
        heap := h'
        data := strncpy (memsetZero s.data ptr (heapAlignSize (str.val.length + 1))) ptr str.val
        nodes := ptr :: s.nodes } := by
    intro ptr s'
    cases r with
    | none => simp [finshNodeNewString, hrun]
    | some p =>
      simp only [finshNodeNewString, hrun, Option.some.injEq, Prod.mk.injEq]
      constructor
      · rintro ⟨rfl, rfl⟩
        exact ⟨rfl, rfl⟩
      · rintro ⟨rfl, rfl⟩
        exact ⟨rfl, rfl⟩
  have hsafe : StepSafe s (.newString str) ↔ ∃ ptr, r = some ptr ∧ ∀ b, Referenced s b →
      Kept s { s with
        heap := h'
        data := strncpy (memsetZero s.data ptr (heapAlignSize (str.val.length + 1))) ptr str.val
        nodes := ptr :: s.nodes } ptr b := by
    simp only [StepSafe, hnode]
    constructor
    · rintro ⟨ptr, s', ⟨hr, rfl⟩, hk⟩
      exact ⟨ptr, hr, hk⟩
    · rintro ⟨ptr, hr, hk⟩
      exact ⟨ptr, _, ⟨hr, rfl⟩, hk⟩
  rw [hsafe]
  simp only [StepCond, firstFit_iff hi]
  rcases hA with ⟨hfit, rfl, hr⟩ | ⟨hfit, rfl⟩
  · refine iff_of_true ?_ (Or.inl hfit)
    rcases hout with ⟨b0, rfl, hout⟩ | ⟨rfl, -⟩
    · exact ⟨_, rfl, fun b hb => kept_of_handsOut hi' hout ((allocated_iff hi).mp hb.1) rfl rfl⟩
    · exact absurd rfl hr
  · -- the collector has run
    have hmemA : ∀ b, b ∈ (l.filter used).filter (fun b => decide (b + headerSize ∈ s.vars)) ↔
        Allocated s b ∧ b + headerSize ∈ s.vars := by
      intro b
      rw [List.mem_filter, allocated_iff hi, decide_eq_true_iff]
    rw [or_iff_right hfit]
    rcases hout with ⟨b0, rfl, hout⟩ | ⟨rfl, hA', hlen, hfull⟩
    · constructor
      · rintro ⟨ptr, hptr, hk⟩
        cases hptr
        refine ⟨fun b hb => ?_, b0, (room_of_handsOut hi' hout).1, fun b hb hv => ?_⟩
        · have hkept := hk b hb
          have hb' := (allocated_iff (s := StringState.mk h' _ _ _) hi').mp hkept.allocated
          have hne : b ≠ b0 := by
            rintro rfl
            exact hkept.ne rfl
          exact ((hmemA b).mp (((hout.mem b).mp hb').resolve_left hne)).2
        · exact (room_of_handsOut hi' hout).2 b ((hmemA b).mpr ⟨hb, hv⟩)
      · rintro ⟨hvars, -⟩
        exact ⟨_, rfl, fun b hb =>
          kept_of_handsOut hi' hout ((hmemA b).mpr ⟨hb.1, hvars b hb⟩) rfl rfl⟩
    · refine iff_of_false (fun ⟨_, hr, _⟩ => (by cases hr)) ?_
      rintro ⟨-, a, ha, hroom⟩
      obtain ⟨b, hb, hno⟩ := no_room hi' hfull a ha
      rw [hA'] at hb
      refine hno ?_
      have hbsize : blockSize h'.length b = blockSize s.heap.length b := by
        rw [blockSize, blockSize, hlen b hb]
      rw [hbsize]
      exact hroom b ((hmemA b).mp hb).1 ((hmemA b).mp hb).2

end Step

/-! ## Runs of lines -/

/-- The heap is intact after every step. -/
theorem lineStep_inv {s s' : StringState} {a : LineAct} (hi : ∃ l used, HeapInv s.heap l used)
    (hs : lineStep s a = some s') : ∃ l used, HeapInv s'.heap l used := by
  obtain ⟨l, used, hi⟩ := hi
  cases a with
  | newString str =>
    obtain ⟨r, h', l', used', A, hrun, hi', -⟩ :=
      finshHeapAllocate_inv (fun p => decide (p ∈ s.vars)) hi (size_lt str)
    cases r with
    | none => simp [lineStep, finshNodeNewString, hrun] at hs
    | some ptr =>
      simp only [lineStep, finshNodeNewString, hrun, Option.some.injEq] at hs
      subst hs
      exact ⟨l', used', hi'⟩
  | execute vars =>
    simp only [lineStep, Option.some.injEq] at hs
    subst hs
    exact ⟨l, used, hi⟩

/-- **The strings of every line.** Over all lines, no string that a node, the code or a variable
refers to is lost, and `NULL` is never written through, if and only if each string literal finds
room at once, or everything referred to is known to the collector and leaves room. -/
theorem strings_safe_iff (acts : List LineAct) :
    Along lineStep StepSafe stringInit acts ↔ Along lineStep StepCond stringInit acts := by
  have hCD : ∀ (s : StringState) (a : LineAct), (∃ l used, HeapInv s.heap l used) →
      (StepSafe s a ↔ StepCond s a) := by
    rintro s a ⟨l, used, hi⟩
    cases a with
    | newString str => exact newString_safe_iff hi
    | execute vars => exact Iff.rfl
  exact along_iff_along hCD (fun s a s' => lineStep_inv) ⟨[0], _, finshHeapInit_inv⟩ acts

/-- `n` characters. -/
def chars (n : Nat) (h : n < finshStringMax) : TokenString :=
  ⟨List.replicate n 97, by rw [List.length_replicate]; exact h⟩

/-- A string of an old line is in the way of the second one of this line, and the collector takes
the first one along. -/
theorem string_lost : ¬ ∀ acts, Along lineStep StepSafe stringInit acts := by
  intro h
  have hrun : ((exec lineStep stringInit [.newString (chars 60 (by decide)), .execute [],
      .newString (chars 30 (by decide))]).map fun s =>
        ((s.heap.allocateList, s.heap.next 0, s.heap.next 72, s.nodes),
          (finshNodeNewString s (chars 30 (by decide))).map fun r =>
            (r.2.heap.allocateList, r.2.heap.next 0))) =
      some ((some 0, some 72, none, [80]), some (some 0, none)) := by decide
  obtain ⟨s, hs, hval⟩ := Option.map_eq_some_iff.mp hrun
  simp only [Prod.mk.injEq] at hval
  obtain ⟨⟨hlist, h0, h72, hnodes⟩, hnew⟩ := hval
  obtain ⟨r, hr, hval⟩ := Option.map_eq_some_iff.mp hnew
  simp only [Prod.mk.injEq] at hval
  have hsafe := along_at _ (h ([.newString (chars 60 (by decide)), .execute [],
    .newString (chars 30 (by decide))] ++ [.newString (chars 30 (by decide))])) hs
  obtain ⟨ptr, s', hs', hk⟩ := hsafe
  rw [hs'] at hr
  cases hr
  have href : Referenced s 72 :=
    ⟨⟨[0, 72], ⟨hlist, h0, h72⟩, by decide⟩, Or.inl (by rw [hnodes]; decide)⟩
  obtain ⟨A, hA, hmem⟩ := (hk 72 href).allocated
  have hone : IsChain s'.heap.next s'.heap.allocateList [0] := ⟨hval.1, hval.2⟩
  rw [hA.unique hone] at hmem
  exact absurd hmem (by decide)

end Tudu.Finsh
