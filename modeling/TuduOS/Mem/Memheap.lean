import TuduOS.Kernel.Def
import TuduOS.Lib.Bytes
import TuduOS.Lib.Lts

/-!
# Memory heaps (`memheap.c`)

One memory heap on the bytes of its memory, with 32-bit pointers and sizes, and the program that
calls it.

* The items of the blocks lie in the pool, and the item at the head of the free list in the
  `struct rt_memheap`. The other members of the structure that the code reads are `Pool` and `Heap`.
* An operation without a next state: an `RT_ASSERT` fails, a loop does not end, or the pool of a
  pointer is not this heap.
* All arithmetic on sizes that come from the caller wraps around, and so does a pointer plus one.
* The semaphore is left out: the calls come one after the other.

The program frees and reallocates only `NULL` and live pointers, and writes into the blocks that it
has. `live` is the list of these pointers.
-/

namespace Tudu.Memheap

open Bytes

/-- The fields of `struct rt_memheap_item`. -/
inductive Field where
  | magic | poolPtr | next | prev | nextFree | prevFree
  deriving DecidableEq

def memheapItem : Layout Field where
  off
    | .magic => 0
    | .poolPtr => 4
    | .next => 8
    | .prev => 12
    | .nextFree => 16
    | .prevFree => 20
  size _ := 4
  len := 24
  inside f := by cases f <;> decide
  apart f g := by cases f <;> cases g <;> decide

def memheapMagic : Nat := 0x1ea01ea0
def memheapMask : Nat := 0xfffffffe
def memheapUsed : Nat := 1
def memheapMinialloc : Nat := 12
def memheapSize : Nat := 24

/-- What `rt_memheap_init` writes into the structure once: its own address, the pool, and
`free_list`, the address of `free_header`. -/
structure Pool where
  addr : Nat
  startAddr : Nat
  poolSize : Nat
  freeList : Nat
  deriving DecidableEq

/-- The tailer of the pool. -/
def Pool.tail (q : Pool) : Nat := q.startAddr + (q.poolSize - memheapSize)

structure Heap where
  mem : Memory
  pool : Pool
  availableSize : Nat
  maxUsedSize : Nat

/-- The size that a request stands for. -/
def requestSize (size : Nat) : Nat :=
  if rtAlign size < memheapMinialloc then memheapMinialloc else rtAlign size

namespace Heap

def get (s : Heap) (f : Field) (b : Nat) : Nat := memheapItem.load s.mem f b

def set (s : Heap) (f : Field) (b v : Nat) : Heap :=
  { s with mem := memheapItem.store s.mem f b v }

/-- `RT_MEMHEAP_IS_USED(i)` -/
def IsUsed (s : Heap) (i : Nat) : Prop := s.get .magic i &&& memheapUsed ≠ 0

instance (s : Heap) (i : Nat) : Decidable (s.IsUsed i) := inferInstanceAs (Decidable (_ ≠ _))

/-- `MEMITEM_SIZE(item)` -/
def memitemSize (s : Heap) (item : Nat) : Nat :=
  sub32 (sub32 (s.get .next item) item) memheapSize

/-- `available_size = v`, and `max_used_size`. -/
def setAvailable (s : Heap) (v : Nat) : Heap :=
  { s with
    availableSize := v
    maxUsedSize := if s.maxUsedSize < sub32 s.pool.poolSize v then sub32 s.pool.poolSize v
      else s.maxUsedSize }

/-- The item `n` goes to the head of the free list. -/
def insertFree (s : Heap) (n : Nat) : Heap :=
  let s := s.set .nextFree n (s.get .nextFree s.pool.freeList)
  let s := s.set .prevFree n s.pool.freeList
  let s := s.set .prevFree (s.get .nextFree s.pool.freeList) n
  s.set .nextFree s.pool.freeList n

/-- `n` leaves the free list and keeps its own pointers. -/
def removeFree (s : Heap) (n : Nat) : Heap :=
  let s := s.set .prevFree (s.get .nextFree n) (s.get .prevFree n)
  s.set .nextFree (s.get .prevFree n) (s.get .nextFree n)

/-- A new free block at `n`, behind the block `b`. -/
def newItem (s : Heap) (b n : Nat) : Heap :=
  let s := s.set .magic n memheapMagic
  let s := s.set .poolPtr n s.pool.addr
  let s := s.set .prev n b
  let s := s.set .next n (s.get .next b)
  let s := s.set .prev (s.get .next b) n
  s.set .next b n

/-- The free block `c` becomes a part of the block `b` before it. -/
def absorb (s : Heap) (b c : Nat) : Heap :=
  let s := s.set .prev (s.get .next c) b
  let s := s.set .next b (s.get .next c)
  s.removeFree c

/-- The loop of `rt_memheap_alloc` from `header_ptr` and `free_size` on. -/
def findFit (s : Heap) (size : Nat) : Nat → Nat → Nat → Option (Nat × Nat)
  | 0, _, _ => none
  | fuel + 1, p, freeSize =>
    if p ≠ s.pool.freeList ∧ freeSize < size then
      if s.memitemSize p < size then findFit s size fuel (s.get .nextFree p) (s.memitemSize p)
      else findFit s size fuel p (s.memitemSize p)
    else some (p, freeSize)

/-- No loop over the free list takes more steps: each block is longer than a byte. -/
def fuel (s : Heap) : Nat := 2 + s.pool.poolSize

/-- The free block `b` of `freeSize` bytes is taken for `size` bytes, and split if a block fits
behind them. -/
def allocBlock (s : Heap) (b size freeSize : Nat) : Heap :=
  let s :=
    if add32 (add32 size memheapSize) memheapMinialloc ≤ freeSize then
      let n := add32 (add32 b size) memheapSize
      let s := s.newItem b n
      let s := s.removeFree b
      let s := s.set .nextFree b 0
      let s := s.set .prevFree b 0
      let s := s.insertFree n
      s.setAvailable (sub32 (sub32 s.availableSize size) memheapSize)
    else
      let s := s.setAvailable (sub32 s.availableSize freeSize)
      let s := s.removeFree b
      let s := s.set .nextFree b 0
      s.set .prevFree b 0
  s.set .magic b (s.get .magic b ||| memheapUsed)

/-- `rt_memheap_alloc`; the pointer 0 is `NULL`. -/
def rtMemheapAlloc (s : Heap) (size : Nat) : Option (Heap × Nat) :=
  let size := requestSize size
  if size < s.availableSize then
    match s.findFit size s.fuel (s.get .nextFree s.pool.freeList) 0 with
    | none => none
    | some (b, freeSize) =>
      if size ≤ freeSize then some (s.allocBlock b size freeSize, b + memheapSize) else some (s, 0)
  else some (s, 0)

/-- The right half of `rt_memheap_free`: `b` is merged with the block behind it, if that is free. -/
def mergeRight (s : Heap) (b : Nat) : Heap :=
  if s.IsUsed (s.get .next b) then s
  else
    let s := { s with availableSize := add32 s.availableSize memheapSize }
    s.absorb b (s.get .next b)

/-- `rt_memheap_free` behind its asserts. -/
def freeBlock (s : Heap) (b : Nat) : Heap :=
  let s := s.set .magic b (s.get .magic b &&& memheapMask)
  let s := { s with availableSize := add32 s.availableSize (s.memitemSize b) }
  if s.IsUsed (s.get .prev b) then (s.mergeRight b).insertFree b
  else
    let s := { s with availableSize := add32 s.availableSize memheapSize }
    let s := s.set .next (s.get .prev b) (s.get .next b)
    let s := s.set .prev (s.get .next b) (s.get .prev b)
    s.mergeRight (s.get .prev b)

/-- The asserts of `rt_memheap_free`, and that the pool is this heap. -/
def FreeOk (s : Heap) (b : Nat) : Prop :=
  s.get .magic b &&& memheapMask = memheapMagic ∧ s.IsUsed b ∧
    s.get .magic (s.get .next b) &&& memheapMask = memheapMagic ∧ s.get .poolPtr b = s.pool.addr

instance (s : Heap) (b : Nat) : Decidable (s.FreeOk b) := inferInstanceAs (Decidable (_ ∧ _))

def rtMemheapFree (s : Heap) (ptr : Nat) : Option Heap :=
  if ptr = 0 then some s
  else if s.FreeOk (sub32 ptr memheapSize) then some (s.freeBlock (sub32 ptr memheapSize)) else none

/-- The block `b` of `oldsize` bytes grows into the free block `c` behind it. -/
def grow (s : Heap) (b c newsize oldsize : Nat) : Heap :=
  let s := s.setAvailable (sub32 s.availableSize (sub32 newsize oldsize))
  let s := s.removeFree c
  let s := s.set .prev (s.get .next c) (s.get .prev c)
  let s := s.set .next (s.get .prev c) (s.get .next c)
  let n := add32 (b + memheapSize) newsize
  let s := s.newItem b n
  s.insertFree n

/-- The block at `ptr` goes to a new one. -/
def moveBlock (s : Heap) (ptr newsize oldsize : Nat) : Option (Heap × Nat) :=
  match s.rtMemheapAlloc newsize with
  | none => none
  | some (s, p) =>
    if p = 0 then some (s, 0)
    else
      let s := { s with mem := copy s.mem p ptr (if oldsize < newsize then oldsize else newsize) }
      (s.rtMemheapFree ptr).map fun s => (s, p)

/-- The end of the block `b` becomes a free block, or a part of the one behind. -/
def shrink (s : Heap) (b newsize : Nat) : Heap :=
  let n := add32 (add32 b newsize) memheapSize
  let s := s.newItem b n
  let s :=
    if s.IsUsed (s.get .next n) then s
    else
      let c := s.get .next n
      let s := { s with availableSize := sub32 s.availableSize (s.memitemSize c) }
      s.absorb n c
  let s := s.insertFree n
  { s with availableSize := add32 s.availableSize (s.memitemSize n) }

/-- `rt_memheap_realloc` with an aligned size, for the pointer of the block `b`. -/
def resizeBlock (s : Heap) (b newsize : Nat) : Option (Heap × Nat) :=
  let ptr := b + memheapSize
  let oldsize := s.memitemSize b
  if oldsize < newsize then
    let c := s.get .next b
    if b < c then
      if ¬s.IsUsed c ∧ add32 newsize memheapMinialloc < add32 (s.memitemSize c) oldsize then
        some (s.grow b c newsize oldsize, ptr)
      else s.moveBlock ptr newsize oldsize
    else none
  else if oldsize ≤ add32 (add32 newsize memheapSize) memheapMinialloc then some (s, ptr)
  else some (s.shrink b newsize, ptr)

def rtMemheapRealloc (s : Heap) (ptr newsize : Nat) : Option (Heap × Nat) :=
  if newsize = 0 then (s.rtMemheapFree ptr).map fun s => (s, 0)
  else if ptr = 0 then s.rtMemheapAlloc (requestSize newsize)
  else s.resizeBlock (sub32 ptr memheapSize) (requestSize newsize)

end Heap

/-- `rt_memheap_init` with the memory `m`, for the structure at `memheap` with `free_header` at
`freeHeader`. -/
def rtMemheapInit (m : Memory) (memheap freeHeader startAddr size : Nat) : Heap :=
  let poolSize := rtAlignDown size
  let available := sub32 poolSize (2 * memheapSize)
  let s : Heap :=
    ⟨m, ⟨memheap, startAddr, poolSize, freeHeader⟩, available, sub32 poolSize available⟩
  -- the head of the free list
  let s := s.set .magic freeHeader memheapMagic
  let s := s.set .poolPtr freeHeader memheap
  let s := s.set .next freeHeader 0
  let s := s.set .prev freeHeader 0
  let s := s.set .nextFree freeHeader freeHeader
  let s := s.set .prevFree freeHeader freeHeader
  -- the first block
  let s := s.set .magic startAddr memheapMagic
  let s := s.set .poolPtr startAddr memheap
  let s := s.set .next startAddr 0
  let s := s.set .prev startAddr 0
  let s := s.set .nextFree startAddr startAddr
  let s := s.set .prevFree startAddr startAddr
  let s := s.set .next startAddr (add32 (add32 startAddr available) memheapSize)
  let s := s.set .prev startAddr (s.get .next startAddr)
  let s := s.insertFree startAddr
  -- the tailer
  let tail := s.get .next startAddr
  let s := s.set .magic tail (memheapMagic ||| memheapUsed)
  let s := s.set .poolPtr tail memheap
  let s := s.set .next tail startAddr
  let s := s.set .prev tail startAddr
  let s := s.set .prevFree tail 0
  s.set .nextFree tail 0

/-- The heap and the program's pointers. -/
structure Sys where
  heap : Heap
  live : List Nat

inductive Act where
  | alloc (size : Nat)
  | free (p : Nat)
  | realloc (p newsize : Nat)
  /-- The program writes the byte `v` at `a`. -/
  | write (a : Nat) (v : UInt8)
  deriving DecidableEq

namespace Heap

/-- `MEMITEM_SIZE` of the block with the pointer `p`. -/
def usable (s : Heap) (p : Nat) : Nat := s.memitemSize (sub32 p memheapSize)

end Heap

namespace Sys

/-- `p` is `NULL` or live. -/
def MayFree (s : Sys) (p : Nat) : Prop := p = 0 ∨ p ∈ s.live

instance (s : Sys) (p : Nat) : Decidable (s.MayFree p) := inferInstanceAs (Decidable (_ ∨ _))

/-- A new pointer, if there is one. -/
def give (live : List Nat) (r : Heap × Nat) : Sys := ⟨r.1, if r.2 = 0 then live else r.2 :: live⟩

/-- The pointers other than `p`. -/
def drop (s : Sys) (p : Nat) : List Nat := s.live.filter fun x => x ≠ p

def step (s : Sys) : Act → Option Sys
  | .alloc size => (s.heap.rtMemheapAlloc size).map fun r => give s.live r
  | .free p => if s.MayFree p then (s.heap.rtMemheapFree p).map fun h => ⟨h, s.drop p⟩ else none
  | .realloc p newsize =>
    if s.MayFree p then
      -- `NULL` for a size other than 0 means that the block could not be changed
      (s.heap.rtMemheapRealloc p newsize).map fun r =>
        give (if r.2 = 0 ∧ newsize ≠ 0 then s.live else s.drop p) r
    else none
  | .write a v =>
    if ∃ p ∈ s.live, p ≤ a ∧ a < p + s.heap.usable p then
      some { s with heap := { s.heap with mem := Function.update s.heap.mem a v } }
    else none

end Sys

end Tudu.Memheap
