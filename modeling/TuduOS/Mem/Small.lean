import TuduOS.Kernel.Def
import TuduOS.Lib.Bytes
import TuduOS.Lib.Lts

/-!
# The system heap (`mem.c`)

The small memory allocator on the bytes of its memory, with 32-bit pointers and sizes, and the
program that calls it.

* A `struct heap_mem *` is its offset from `heap_ptr`, as `next` and `prev` are. The memory is at
  absolute addresses, as the pointers that the program gets are.
* An operation without a next state: an `RT_ASSERT` fails, or a loop does not end.
* Only the differences can wrap around: an offset and the length of a header or of a block stay
  below 2^32. Sizes wrap around in `RT_ALIGN` and in the product of `rt_calloc`.
* `heap_sem` is left out: the calls come one after the other.

The program frees and reallocates only `NULL` and live pointers, and writes into the areas that it
asked for. `live` is the list of these areas.
-/

namespace Tudu.Mem

open Bytes

/-- The fields of `struct heap_mem`. -/
inductive Field where
  | magic | used | next | prev
  deriving DecidableEq

def heapMem : Layout Field where
  off
    | .magic => 0
    | .used => 2
    | .next => 4
    | .prev => 8
  size
    | .magic => 2
    | .used => 2
    | .next => 4
    | .prev => 4
  len := 12
  inside f := by cases f <;> decide
  apart f g := by cases f <;> cases g <;> decide

def heapMagic : Nat := 0x1ea0
def sizeofStructMem : Nat := 12
def minSizeAligned : Nat := 12

/-- The static variables of `mem.c` and the memory. -/
structure Heap where
  mem : Memory
  heapPtr : Nat
  heapEnd : Nat
  lfree : Nat
  memSizeAligned : Nat
  usedMem : Nat
  maxMem : Nat

namespace Heap

def get (s : Heap) (f : Field) (b : Nat) : Nat := heapMem.load s.mem f (s.heapPtr + b)

def set (s : Heap) (f : Field) (b v : Nat) : Heap :=
  { s with mem := heapMem.store s.mem f (s.heapPtr + b) v }

/-- The forward half of `plug_holes`. -/
def plugForward (s : Heap) (mem : Nat) : Heap :=
  let nmem := s.get .next mem
  if mem ≠ nmem ∧ s.get .used nmem = 0 ∧ nmem ≠ s.heapEnd then
    let s := if s.lfree = nmem then { s with lfree := mem } else s
    let s := s.set .next mem (s.get .next nmem)
    s.set .prev (s.get .next nmem) mem
  else s

/-- The backward half of `plug_holes`. -/
def plugBackward (s : Heap) (mem : Nat) : Heap :=
  let pmem := s.get .prev mem
  if pmem ≠ mem ∧ s.get .used pmem = 0 then
    let s := if s.lfree = mem then { s with lfree := pmem } else s
    let s := s.set .next pmem (s.get .next mem)
    s.set .prev (s.get .next mem) pmem
  else s

def plugHoles (s : Heap) (mem : Nat) : Option Heap :=
  if mem < s.heapEnd ∧ s.get .used mem = 0 then some ((s.plugForward mem).plugBackward mem)
  else none

/-- The unused block `ptr2` goes between `mem` and the block behind it; the `prev` of `heap_end` is
not kept. -/
def splitBlock (s : Heap) (mem ptr2 : Nat) : Heap :=
  let next := s.get .next mem
  let s := s.set .magic ptr2 heapMagic
  let s := s.set .used ptr2 0
  let s := s.set .next ptr2 next
  let s := s.set .prev ptr2 mem
  let s := s.set .next mem ptr2
  if next ≠ s.memSizeAligned + sizeofStructMem then s.set .prev next ptr2 else s

/-- `used_mem += k`, and `max_mem`. -/
def charge (s : Heap) (k : Nat) : Heap :=
  let used := add32 s.usedMem k
  { s with usedMem := used, maxMem := if s.maxMem < used then used else s.maxMem }

/-- The loop of `rt_malloc` up to the first block that is large enough. -/
def findFit (s : Heap) (size : Nat) : Nat → Nat → Option (Option Nat)
  | 0, _ => none
  | fuel + 1, ptr =>
    if ptr < sub32 s.memSizeAligned size then
      if s.get .used ptr = 0 ∧ size ≤ sub32 (s.get .next ptr) (ptr + sizeofStructMem) then
        some (some ptr)
      else findFit s size fuel (s.get .next ptr)
    else some none

/-- `while (lfree->used && lfree != heap_end) lfree = lfree->next;` -/
def nextFree (s : Heap) : Nat → Nat → Option Nat
  | 0, _ => none
  | fuel + 1, p =>
    if s.get .used p ≠ 0 ∧ p ≠ s.heapEnd then nextFree s fuel (s.get .next p) else some p

/-- The block `mem` is taken for `size` bytes, and split if a block fits behind them. -/
def take (s : Heap) (mem size : Nat) : Heap :=
  let s :=
    if size + sizeofStructMem + minSizeAligned ≤ sub32 (s.get .next mem) (mem + sizeofStructMem) then
      ((s.splitBlock mem (mem + sizeofStructMem + size)).set .used mem 1).charge
        (size + sizeofStructMem)
    else
      let s := s.set .used mem 1
      s.charge (sub32 (s.get .next mem) mem)
  s.set .magic mem heapMagic

/-- No loop over the blocks takes more steps: each is 12 bytes long at least. -/
def fuel (s : Heap) : Nat := 2 + s.memSizeAligned

/-- The asserts at the end of `rt_malloc`. -/
def MallocOk (s : Heap) (mem size : Nat) : Prop :=
  mem + sizeofStructMem + size ≤ s.heapEnd ∧
    (s.heapPtr + mem + sizeofStructMem) % 4 = 0 ∧ (s.heapPtr + mem) % 4 = 0

instance (s : Heap) (mem size : Nat) : Decidable (s.MallocOk mem size) :=
  inferInstanceAs (Decidable (_ ∧ _))

/-- The end of `rt_malloc` with the block `mem`: `lfree`, and the asserts. -/
def mallocEnd (s : Heap) (mem size : Nat) : Option (Heap × Nat) :=
  match if mem = s.lfree then s.nextFree s.fuel s.lfree else some s.lfree with
  | none => none
  | some lfree =>
    if s.MallocOk mem size then
      some ({ s with lfree := lfree }, s.heapPtr + mem + sizeofStructMem)
    else none

/-- `rt_malloc` from the loop on. -/
def mallocLoop (s : Heap) (size : Nat) : Option (Heap × Nat) :=
  match s.findFit size s.fuel s.lfree with
  | none => none
  | some none => some (s, 0)
  | some (some mem) => (s.take mem size).mallocEnd mem size

/-- `rt_malloc`; the pointer 0 is `NULL`. -/
def rtMalloc (s : Heap) (size : Nat) : Option (Heap × Nat) :=
  if size = 0 then some (s, 0)
  else if rtAlign size > s.memSizeAligned then some (s, 0)
  else s.mallocLoop (if rtAlign size < minSizeAligned then minSizeAligned else rtAlign size)

/-- `rt_free`. Its asserts leave nothing to the test for illegal memory behind them. -/
def rtFree (s : Heap) (rmem : Nat) : Option Heap :=
  if rmem = 0 then some s
  else if rmem % 4 = 0 ∧ s.heapPtr ≤ rmem ∧ rmem < s.heapPtr + s.heapEnd then
    let mem := rmem - sizeofStructMem - s.heapPtr
    if s.get .used mem ≠ 0 ∧ s.get .magic mem = heapMagic then
      let s := s.set .used mem 0
      let s := s.set .magic mem heapMagic
      let s := if mem < s.lfree then { s with lfree := mem } else s
      let s := { s with usedMem := sub32 s.usedMem (sub32 (s.get .next mem) mem) }
      s.plugHoles mem
    else none
  else none

def rtRealloc (s : Heap) (rmem newsize : Nat) : Option (Heap × Nat) :=
  let newsize := rtAlign newsize
  if newsize > s.memSizeAligned then some (s, 0)
  else if newsize = 0 then (s.rtFree rmem).map fun s => (s, 0)
  else if rmem = 0 then s.rtMalloc newsize
  else if rmem < s.heapPtr ∨ s.heapPtr + s.heapEnd ≤ rmem then some (s, rmem)
  else
    let mem := rmem - sizeofStructMem - s.heapPtr
    let size := sub32 (sub32 (s.get .next mem) mem) sizeofStructMem
    if size = newsize then some (s, rmem)
    else if newsize + sizeofStructMem + minSizeAligned < size then
      let s := { s with usedMem := sub32 s.usedMem (size - newsize) }
      let mem2 := mem + sizeofStructMem + newsize
      let s := s.splitBlock mem mem2
      let s := if mem2 < s.lfree then { s with lfree := mem2 } else s
      (s.plugHoles mem2).map fun s => (s, rmem)
    else
      match s.rtMalloc newsize with
      | none => none
      | some (s, nmem) =>
        if nmem = 0 then some (s, 0)
        else
          let s := { s with mem := copy s.mem nmem rmem (if size < newsize then size else newsize) }
          (s.rtFree rmem).map fun s => (s, nmem)

def rtCalloc (s : Heap) (count size : Nat) : Option (Heap × Nat) :=
  let n := count * size % 2 ^ 32
  (s.rtMalloc n).map fun r =>
    if r.2 = 0 then r else ({ r.1 with mem := fill r.1.mem r.2 n 0 }, r.2)

end Heap

/-- The heap at `heapPtr` with the block 0 and the end. -/
def heapInit (m : Memory) (heapPtr size : Nat) : Heap :=
  let e := size + sizeofStructMem
  let s : Heap := ⟨m, heapPtr, e, 0, size, 0, 0⟩
  let s := s.set .magic 0 heapMagic
  let s := s.set .next 0 e
  let s := s.set .prev 0 0
  let s := s.set .used 0 0
  let s := s.set .magic e heapMagic
  let s := s.set .used e 1
  let s := s.set .next e e
  s.set .prev e e

/-- `rt_system_heap_init` with the memory `m`, at the start of the system; `none` if it does not
accept the region. -/
def rtSystemHeapInit (m : Memory) (beginAddr endAddr : Nat) : Option Heap :=
  if 2 * sizeofStructMem < rtAlignDown endAddr ∧
      rtAlign beginAddr ≤ rtAlignDown endAddr - 2 * sizeofStructMem then
    some (heapInit m (rtAlign beginAddr)
      (rtAlignDown endAddr - rtAlign beginAddr - 2 * sizeofStructMem))
  else none

/-- The heap and the program's areas, each with its length. -/
structure Sys where
  heap : Heap
  live : List (Nat × Nat)

inductive Act where
  | malloc (size : Nat)
  | calloc (count size : Nat)
  | realloc (p newsize : Nat)
  | free (p : Nat)
  /-- The program writes the byte `v` at `a`. -/
  | write (a : Nat) (v : UInt8)
  deriving DecidableEq

namespace Sys

/-- `p` is `NULL` or live. -/
def MayFree (s : Sys) (p : Nat) : Prop := p = 0 ∨ p ∈ s.live.map Prod.fst

instance (s : Sys) (p : Nat) : Decidable (s.MayFree p) := inferInstanceAs (Decidable (_ ∨ _))

/-- A new area, if there is one. -/
def give (live : List (Nat × Nat)) (r : Heap × Nat) (size : Nat) : Sys :=
  ⟨r.1, if r.2 = 0 then live else (r.2, size) :: live⟩

/-- The areas without the one at `p`. -/
def drop (s : Sys) (p : Nat) : List (Nat × Nat) := s.live.filter fun x => x.1 ≠ p

def step (s : Sys) : Act → Option Sys
  | .malloc size => (s.heap.rtMalloc size).map fun r => give s.live r size
  | .calloc count size => (s.heap.rtCalloc count size).map fun r => give s.live r (count * size)
  | .realloc p newsize =>
    if s.MayFree p then
      -- `NULL` for a size other than 0 means that the area could not be changed
      (s.heap.rtRealloc p newsize).map fun r =>
        give (if r.2 = 0 ∧ newsize ≠ 0 then s.live else s.drop p) r newsize
    else none
  | .free p =>
    if s.MayFree p then (s.heap.rtFree p).map fun h => ⟨h, s.drop p⟩ else none
  | .write a v =>
    if ∃ x ∈ s.live, x.1 ≤ a ∧ a < x.1 + x.2 then
      some { s with heap := { s.heap with mem := Function.update s.heap.mem a v } }
    else none

end Sys

end Tudu.Mem
