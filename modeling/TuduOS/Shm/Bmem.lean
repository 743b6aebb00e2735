import Mathlib.Logic.Function.Basic
import TuduOS.Kernel.Def
import TuduOS.Lib.Lts
import TuduOS.Lib.Tiling

/-!
# The block allocator of the shared memory (`lwt_shm.c`)

A `bmem` hands out parts of one region. Its block list (`block_node`) has a `struct bmem_block` for
each part, in address order, with its length; no address is stored: `bmem_malloc` and `bmem_free`
sum the lengths in front of a block (`mem_offset`). The `bmem_block` records come from tables of
eight (`struct bmem_tab`), except the one that `bmem_create` allocates.

* `Bmem`: the fields of `struct bmem_typedef`, the tables and the records.
* `getMemBlock`, `putMemBlock`, `bmemCreate`, `bmemMalloc`, `bmemFree`: the functions of
  `lwt_shm.c`. What a function cannot know is a parameter: the result of `rt_calloc`, and the value
  that `put_mem_block` reads through its uninitialised pointer `bmem_block` (`junk`).
* `BmemRun`, `BmemAct`, `bmemStep`: an arena with the allocations that its callers hold, and the
  calls they make.

An address is a natural number: pointers into one region do not wrap. The lengths are
`rt_uint16_t`, `mem_offset` and the sizes `rt_uint32_t`.
-/

namespace Tudu.Shm

/-- `BLOCK_TAB_SIZE` -/
def blockTabSize : Nat := 8

/-- A `struct bmem_block` by its place: the one that `bmem_create` allocates, or entry `i` of the
`struct bmem_tab` at address `tab`. -/
inductive BlockRef where
  | first
  | slot (tab i : Nat)
  deriving DecidableEq

structure BmemBlock where
  isUsed : Nat
  len : Nat
  deriving DecidableEq

structure Bmem where
  start : Nat
  memSize : Nat
  usedMemSize : Nat
  usedMaxMemSize : Nat
  /-- The tables, in list order. -/
  tabHead : List Nat
  /-- `used_num` of each table. -/
  usedNum : Nat → Nat
  /-- The block list. -/
  blockNode : List BlockRef
  /-- The records behind the references. -/
  block : BlockRef → BmemBlock

namespace Bmem

def len (b : Bmem) (r : BlockRef) : Nat := (b.block r).len

def isUsed (b : Bmem) (r : BlockRef) : Bool := (b.block r).isUsed != 0

def setBlock (b : Bmem) (r : BlockRef) (x : BmemBlock) : Bmem :=
  { b with block := Function.update b.block r x }

def setUsedNum (b : Bmem) (t n : Nat) : Bmem :=
  { b with usedNum := Function.update b.usedNum t n }

end Bmem

open Bmem

/-! ## The record tables -/

/-- One pass of `get_mem_block` over the tables: the first free entry. -/
def getMemBlockScan (b : Bmem) : List Nat → Option (Nat × Nat)
  | [] => none
  | t :: ts =>
    if b.usedNum t < blockTabSize then
      match (List.range blockTabSize).find? fun i => !b.isUsed (.slot t i) with
      | some i => some (t, i)
      | none => getMemBlockScan b ts
    else getMemBlockScan b ts

/-- The table that `rt_calloc` returned at `t`, put in front of the others. -/
def addTab (b : Bmem) (t : Nat) : Bmem :=
  { b with
    tabHead := t :: b.tabHead
    usedNum := Function.update b.usedNum t 0
    block := fun r => match r with
      | .slot t' i => if t' = t then ⟨0, 0⟩ else b.block (.slot t' i)
      | .first => b.block .first }

/-- `get_mem_block`: the `while(1)` passes over the tables, and again when it has added one. -/
def getMemBlock (b : Bmem) (calloc : Option Nat) : Option (BlockRef × Bmem) :=
  match getMemBlockScan b b.tabHead with
  | some (t, i) => some (.slot t i, b.setUsedNum t (b.usedNum t + 1))
  | none =>
    match calloc with
    | none => none
    | some t =>
      let b := addTab b t
      match getMemBlockScan b b.tabHead with
      | some (t, i) => some (.slot t i, b.setUsedNum t (b.usedNum t + 1))
      | none => none

/-- `put_mem_block`. The pointer `bmem_block` is never set, so the test `bmem_block->is_used != 0`
reads the same unknown value `junk` for every entry. -/
def putMemBlock (b : Bmem) (r : BlockRef) (junk : Nat) : Int × Bmem :=
  match b.tabHead.find? fun t =>
      (List.range blockTabSize).any fun i => junk != 0 && r == .slot t i with
  | none => (-rtError, b)
  | some t =>
    let b := b.setBlock r { b.block r with isUsed := 0 }
    let b := b.setUsedNum t (b.usedNum t - 1)
    let b := if b.usedNum t = 0 then { b with tabHead := b.tabHead.erase t } else b
    (rtEok, b)

/-! ## The arena -/

/-- `bmem_create`, when both allocations succeed. -/
def bmemCreate (start size : Nat) : Bmem where
  start := start
  memSize := size
  usedMemSize := 0
  usedMaxMemSize := 0
  tabHead := []
  usedNum := fun _ => 0
  blockNode := [.first]
  block := fun _ => ⟨0, size % 2 ^ 16⟩

/-- The split in `bmem_malloc`: the new block `n` takes the front of `r`. -/
def bmemSplit (b : Bmem) (r n : BlockRef) (size : Nat) : Bmem :=
  let b := b.setBlock n ⟨1, size % 2 ^ 16⟩
  let b := b.setBlock r { b.block r with len := b.len r - size }
  { b with blockNode := listInsertBefore r n b.blockNode }

/-- `bmem_malloc` counts the size that it hands out. -/
def bmemCount (b : Bmem) (size : Nat) : Bmem :=
  let used := (b.usedMemSize + size) % 2 ^ 32
  { b with usedMemSize := used, usedMaxMemSize := max b.usedMaxMemSize used }

/-- The end of `bmem_malloc`: `r` is marked used if it has the size asked for. After a split the
test reads the length of the rest, not of the new block. -/
def bmemTake (b : Bmem) (r : BlockRef) (size : Nat) : Bmem :=
  bmemCount (if b.len r = size then b.setBlock r { b.block r with isUsed := 1 } else b) size

/-- The body of `bmem_malloc`'s loop at an unused block `r` that is long enough. -/
def bmemMallocAt (b : Bmem) (size : Nat) (calloc : Option Nat) (r : BlockRef) (memOffset : Nat) :
    Option Nat × Bmem :=
  let split := if b.len r > size then
      (getMemBlock b calloc).map fun (n, b) => bmemSplit b r n size
    else some b
  match split with
  | none => (none, b)
  | some b => (some (b.start + memOffset), bmemTake b r size)

/-- The loop of `bmem_malloc` from a place in the block list, with the lengths in front of it. -/
def bmemMallocLoop (b : Bmem) (size : Nat) (calloc : Option Nat) :
    List BlockRef → Nat → Option Nat × Bmem
  | [], _ => (none, b)
  | r :: rs, memOffset =>
    if !b.isUsed r && b.len r ≥ size then bmemMallocAt b size calloc r memOffset
    else bmemMallocLoop b size calloc rs ((memOffset + b.len r) % 2 ^ 32)

/-- `bmem_malloc` -/
def bmemMalloc (b : Bmem) (size : Nat) (calloc : Option Nat) : Option Nat × Bmem :=
  if b.memSize ≥ size then bmemMallocLoop b size calloc b.blockNode 0 else (none, b)

/-- The loop of `bmem_free`: the first block at the address `addr`. -/
def bmemFindLoop (b : Bmem) (addr : Nat) : List BlockRef → Nat → Option BlockRef
  | [], _ => none
  | r :: rs, memOffset =>
    if addr = b.start + memOffset then some r
    else bmemFindLoop b addr rs ((memOffset + b.len r) % 2 ^ 32)

/-- The block that `bmem_free` takes for the address `addr`. -/
def bmemFind (b : Bmem) (addr : Nat) : Option BlockRef := bmemFindLoop b addr b.blockNode 0

/-- `bmem_free`: the block's record goes back to its table, and the block leaves the block list. -/
def bmemFree (b : Bmem) (addr junk : Nat) : Int × Bmem :=
  match bmemFind b addr with
  | none => (-rtError, b)
  | some r =>
    let b := (putMemBlock b r junk).2
    (rtEok, { b with blockNode := b.blockNode.erase r })

/-! ## Runs -/

/-- An allocation: the address that `bmem_malloc` returned and the size it was asked for. -/
structure Alloc where
  addr : Nat
  size : Nat
  deriving DecidableEq

/-- The addresses of an allocation. -/
abbrev Alloc.span (a : Alloc) : Set Nat := Tiling.span a.addr a.size

/-- An arena, and the allocations that its callers hold. -/
structure BmemRun where
  bmem : Bmem
  live : List Alloc

inductive BmemAct where
  /-- `bmem_malloc(size)`; `calloc`: what `rt_calloc` returns if `get_mem_block` calls it. -/
  | malloc (size : Nat) (calloc : Option Nat)
  /-- `bmem_free` of a held allocation; `junk`: the value that `put_mem_block` reads. -/
  | free (a : Alloc) (junk : Nat)
  deriving DecidableEq

/-- One call. `rt_calloc` never returns a table in use, and a caller frees what it holds. -/
def bmemStep (s : BmemRun) : BmemAct → Option BmemRun
  | .malloc size calloc =>
    if ∃ t ∈ s.bmem.tabHead, calloc = some t then none
    else
      let (p, b) := bmemMalloc s.bmem size calloc
      some ⟨b, match p with | none => s.live | some addr => ⟨addr, size⟩ :: s.live⟩
  | .free a junk =>
    if a ∈ s.live then some ⟨(bmemFree s.bmem a.addr junk).2, s.live.erase a⟩ else none

/-- The arena as created, nothing held. -/
def bmemInit (start size : Nat) : BmemRun := ⟨bmemCreate start size, []⟩

end Tudu.Shm
