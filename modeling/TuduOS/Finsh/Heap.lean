import Mathlib.Logic.Function.Basic

/-!
# The heap of the shell (`finsh_heap.c`)

A block has a header of two words in front of its data: its length, without the header, and the
pointer of the list that it is in. Addresses count from `finsh_heap[0]`, and a block is named by the
address of its header.

* `finshHeapAllocate`: the first fit in the free list; where there is none, the collector runs and
  the list is searched again, with a weaker test.
* `finshHeapFree`: from the one list to the other, and together with its neighbours.
* `finshHeapGc`: frees what no variable points to. Which pointers the variables have is a parameter.

A loop over a list has no value if it takes more than `FINSH_HEAP_MAX` rounds; `heap_intact` says
that this does not happen. The bytes of the data are not kept.
-/

namespace Tudu.Finsh

/-- `FINSH_HEAP_MAX` -/
def finshHeapMax : Nat := 128

/-- `sizeof(struct finsh_block_header)` -/
def headerSize : Nat := 8

structure FinshHeap where
  length : Nat → Nat
  next : Nat → Option Nat
  freeList : Option Nat
  allocateList : Option Nat

/-- `HEAP_ALIGN_SIZE`, of a `size_t` -/
def heapAlignSize (size : Nat) : Nat := (size + 3) % 4294967296 / 4 * 4

def finshHeapInit : FinshHeap where
  length := Function.update (fun _ => 0) 0 (finshHeapMax - headerSize)
  next := fun _ => none
  freeList := some 0
  allocateList := none

/-! ## The lists -/

/-- The `next` pointers of all blocks, and the pointer to the first block of a list. -/
abbrev BlockList := (Nat → Option Nat) × Option Nat

/-- The loop of `finsh_block_insert`: the node that `header` goes behind. -/
def insertPoint (next : Nat → Option Nat) (header : Nat) : Nat → Nat → Option Nat
  | 0, _ => none
  | n + 1, node =>
    match next node with
    | none => some node
    | some after => if after > header then some node else insertPoint next header n after

def finshBlockInsert (next : Nat → Option Nat) (list : Option Nat) (header : Nat) :
    Option BlockList :=
  match list with
  | none => some (next, some header)
  | some node =>
    if node > header then some (Function.update next header (some node), some header)
    else do
      let node ← insertPoint next header finshHeapMax node
      -- at the end of the list, `header->next` stays what it is
      let next' := if next node = none then next else Function.update next header (next node)
      some (Function.update next' node (some header), list)

/-- The loop of `finsh_block_remove` and of `finsh_block_merge`: the node in front of `header`. -/
def findPrev (next : Nat → Option Nat) (header : Nat) : Nat → Option Nat → Option (Option Nat)
  | 0, _ => none
  | _ + 1, none => some none
  | n + 1, some node =>
    if next node = some header then some (some node) else findPrev next header n (next node)

def finshBlockRemove (next : Nat → Option Nat) (list : Option Nat) (header : Nat) :
    Option BlockList :=
  if list = some header then some (Function.update next header none, next header)
  else do
    match ← findPrev next header finshHeapMax list with
    | none => some (next, list)
    | some node => some (Function.update next node (next header), list)

/-! ## Blocks -/

def finshBlockSplit (h : FinshHeap) (header size : Nat) : FinshHeap :=
  let next := header + headerSize + size
  { h with
    length := Function.update (Function.update h.length next (h.length header - headerSize - size))
      header size
    next := Function.update (Function.update h.next next (h.next header)) header (some next) }

/-- The block at `b` begins where the one at `a` ends. -/
def adjacent (h : FinshHeap) (a b : Nat) : Bool := a + h.length a + headerSize == b

/-- The block at `a` becomes longer, and `q` is behind it. -/
def extend (h : FinshHeap) (a extra : Nat) (q : Option Nat) : FinshHeap :=
  { h with
    length := Function.update h.length a (h.length a + extra)
    next := Function.update h.next a q }

/-- `finsh_block_merge`, of the free list -/
def finshBlockMerge (h : FinshHeap) (header : Nat) : Option FinshHeap :=
  let prevNode := if h.freeList = some header then some none
    else findPrev h.next header finshHeapMax h.freeList
  let nextNode := (h.next header).filter fun n => adjacent h header n
  prevNode.map fun prevNode =>
    match prevNode.filter fun p => adjacent h p header, nextNode with
    | some p, some n => extend h p (h.length header + h.length n + 2 * headerSize) (h.next n)
    | some p, none => extend h p (h.length header + headerSize) (h.next header)
    | none, some n => extend h header (h.length n + headerSize) (h.next n)
    | none, none => h

/-- The end of `finsh_heap_allocate`: the block `header` is split and handed out. -/
def takeBlock (h : FinshHeap) (header size : Nat) : Option FinshHeap := do
  let h := finshBlockSplit h header size
  let f ← finshBlockRemove h.next h.freeList header
  let a ← finshBlockInsert (Function.update f.1 header none) h.allocateList header
  some { h with next := a.1, freeList := f.2, allocateList := a.2 }

/-- The block of the data at `ptr` goes back. -/
def finshHeapFree (h : FinshHeap) (ptr : Nat) : Option FinshHeap := do
  let header := ptr - headerSize
  let a ← finshBlockRemove h.next h.allocateList header
  let f ← finshBlockInsert a.1 h.freeList header
  finshBlockMerge { h with next := f.1, freeList := f.2, allocateList := a.2 } header

/-- The loop of `finsh_heap_gc`, from a block of the allocate list on. -/
def gcLoop (inVar : Nat → Bool) : Nat → FinshHeap → Option Nat → Option FinshHeap
  | 0, _, _ => none
  | _ + 1, h, none => some h
  | n + 1, h, some header =>
    let after := h.next header
    if inVar (header + headerSize) then gcLoop inVar n h after
    else do
      let h ← finshHeapFree h (header + headerSize)
      gcLoop inVar n h after

/-- `inVar p`: a variable in use has the pointer `p`. -/
def finshHeapGc (h : FinshHeap) (inVar : Nat → Bool) : Option FinshHeap :=
  gcLoop inVar finshHeapMax h h.allocateList

/-- The first block of the free list whose length is as wanted. -/
def findFit (h : FinshHeap) (fits : Nat → Bool) : Nat → Option Nat → Option (Option Nat)
  | 0, _ => none
  | _ + 1, none => some none
  | n + 1, some header =>
    if fits (h.length header) then some (some header) else findFit h fits n (h.next header)

/-- The address of the data, or `NULL`. -/
def finshHeapAllocate (h : FinshHeap) (size : Nat) (inVar : Nat → Bool) :
    Option (Option Nat × FinshHeap) := do
  let size := heapAlignSize size
  let need := (size + headerSize) % 4294967296
  match ← findFit h (fun len => !decide (len ≤ need)) finshHeapMax h.freeList with
  | some header => do
    let h ← takeBlock h header size
    some (some (header + headerSize), h)
  | none => do
    let h ← finshHeapGc h inVar
    match ← findFit h (fun len => !decide (len < need)) finshHeapMax h.freeList with
    | some header => do
      let h ← takeBlock h header size
      some (some (header + headerSize), h)
    | none => some (none, h)

/-! ## Runs -/

/-- The heap, and the size that was asked for each block. -/
structure HeapRun where
  heap : FinshHeap
  asked : Nat → Nat

inductive HeapAct where
  | allocate (size : Nat) (inVar : Nat → Bool)
  | free (ptr : Nat)

def heapStep (s : HeapRun) : HeapAct → Option HeapRun
  | .allocate size inVar =>
    match finshHeapAllocate s.heap size inVar with
    | none => none
    | some (none, h) => some { s with heap := h }
    | some (some ptr, h) => some ⟨h, Function.update s.asked (ptr - headerSize) size⟩
  | .free ptr => (finshHeapFree s.heap ptr).map fun h => { s with heap := h }

end Tudu.Finsh
