import Mathlib.Data.Nat.Bitwise
import TuduOS.Lib.Chain
import TuduOS.Mem.Pages

/-!
# The slab heap (`slab.c`)

A zone, `slab_zone`, is the number of its first page; a chunk is its address, and 0 is `NULL`.

* Who has a block may overwrite it (`overwrite`): its pages' heads, what would be a zone's header in
  it, and the words that would be a `c_next`. The allocator's own structures are apart from each
  other, and the words of one that is not in use may be anything.
* An `RT_ASSERT` that fails, a `NULL` that is read and a loop of too many rounds have no result.
* The heap's semaphore makes each section one step, and the calls come one after the other.

The ghosts: `live` has the blocks that are out, each with its length; `zones` has the zones that
have been set up and that are not back at the page allocator.
-/

namespace Tudu.Slab

open Lts Runs Pages

/-- `RT_MM_PAGE_SIZE` -/
def pageSize : Nat := 4096

/-- `sizeof(slab_zone)` -/
def headerSize : Nat := 36

/-- `ZALLOC_SLAB_MAGIC` -/
def slabMagic : Int := 0x51ab51ab

/-- `NZONES` -/
def nzones : Nat := 72

inductive PageType where
  | free | small | large
  deriving DecidableEq

structure Memusage where
  type : PageType
  size : Nat
  deriving DecidableEq

structure SlabZone where
  magic : Int
  nfree : Nat
  nmax : Nat
  next : Option Nat
  baseptr : Nat
  uindex : Nat
  chunksize : Nat
  zoneindex : Nat
  freechunk : Option Nat
  deriving DecidableEq

structure SlabHeap where
  pages : Pages.State
  zone : Nat → SlabZone
  cNext : Nat → Option Nat
  zoneArray : Nat → Option Nat
  zoneFree : Option Nat
  zoneFreeCnt : Nat
  zoneSize : Nat
  zoneLimit : Nat
  /-- `btokup` of a page -/
  memusage : Nat → Memusage
  live : List Run
  zones : List Nat

/-- `(n + k - 1) & ~(k - 1)`, for a power of 2 -/
def roundUp (n k : Nat) : Nat := (n + (k - 1)) / k * k

/-- `zoneindex` of a size that is not 0: the index, and the size of the chunks. -/
def zoneindex (n : Nat) : Nat × Nat :=
  if n < 128 then (roundUp n 8 / 8 - 1, roundUp n 8)
  else if n < 256 then (roundUp n 16 / 16 + 7, roundUp n 16)
  else if n < 8192 then
    if n < 512 then (roundUp n 32 / 32 + 15, roundUp n 32)
    else if n < 1024 then (roundUp n 64 / 64 + 23, roundUp n 64)
    else if n < 2048 then (roundUp n 128 / 128 + 31, roundUp n 128)
    else if n < 4096 then (roundUp n 256 / 256 + 39, roundUp n 256)
    else (roundUp n 512 / 512 + 47, roundUp n 512)
  else if n < 16384 then (roundUp n 1024 / 1024 + 55, roundUp n 1024)
  else (0, n)

/-- `RT_ALIGN(size, RT_MM_PAGE_SIZE)` on 32 bits. -/
def alignPage (size : Nat) : Nat := (size + (pageSize - 1)) % 2 ^ 32 / pageSize * pageSize

/-- What is in the words of a block. -/
structure Words where
  next : Nat → Option Nat
  page : Nat → Nat
  zone : Nat → SlabZone
  cNext : Nat → Option Nat

/-- `n` bytes at `a` meet the block. -/
def meets (r : Run) (a n : Nat) : Bool := decide (a < r.1 + r.2 ∧ r.1 < a + n)

namespace SlabHeap

/-- `zone_page_cnt` -/
def zonePageCnt (s : SlabHeap) : Nat := s.zoneSize / pageSize

def setZone (s : SlabHeap) (z : Nat) (h : SlabZone) : SlabHeap :=
  { s with zone := Function.update s.zone z h }

def setArray (s : SlabHeap) (zi : Nat) (z : Option Nat) : SlabHeap :=
  { s with zoneArray := Function.update s.zoneArray zi z }

/-- The block goes to the caller. -/
def hand (s : SlabHeap) (ptr size : Nat) : SlabHeap := { s with live := (ptr, size) :: s.live }

/-- The block of the pointer comes back. -/
def forget (s : SlabHeap) (ptr : Nat) : SlabHeap :=
  { s with live := s.live.eraseP fun r => r.1 == ptr }

def isLive (s : SlabHeap) (ptr : Nat) : Bool := s.live.any fun r => r.1 == ptr

/-- The owner overwrites its block. -/
def overwrite (s : SlabHeap) (r : Run) (w : Words) : SlabHeap :=
  { s with
    pages := ⟨{ s.pages.heap with
      next := fun p => if meets r (p * pageSize) 8 then w.next p else s.pages.heap.next p
      page := fun p => if meets r (p * pageSize) 8 then w.page p else s.pages.heap.page p },
      s.pages.live⟩
    zone := fun p => if meets r (p * pageSize) headerSize then w.zone p else s.zone p
    cNext := fun a => if meets r a 4 then w.cNext a else s.cNext a }

def pageAlloc (rounds : Nat) (s : SlabHeap) (npages : Nat) : Option (Option Nat × SlabHeap) :=
  (s.pages.heap.rtPageAlloc rounds npages).map fun r =>
    match r.1 with
    | none => (none, { s with pages := ⟨r.2, s.pages.live⟩ })
    | some p => (some p, { s with pages := ⟨r.2, (p, npages) :: s.pages.live⟩ })

def pageFree (rounds : Nat) (s : SlabHeap) (page npages : Nat) : Option SlabHeap :=
  (s.pages.heap.rtPageFree rounds page npages).map fun h =>
    { s with pages := ⟨h, s.pages.live.erase (page, npages)⟩ }

/-- The pages of a zone are in use, each with its offset, or free. -/
def setUsage (s : SlabHeap) (z : Nat) (small : Bool) : SlabHeap :=
  { s with memusage := fun p =>
      if z ≤ p ∧ p < z + s.zonePageCnt then
        if small then ⟨.small, p - z⟩ else ⟨.free, 0⟩
      else s.memusage p }

/-- `rt_malloc` out of the zone `z` of `zone_array[zi]`. -/
def allocFrom (s : SlabHeap) (zi size z : Nat) : Option (Nat × SlabHeap) :=
  let h := s.zone z
  if h.nfree > 0 then
    let nfree := h.nfree - 1
    let next := if nfree = 0 then none else h.next
    let s := if nfree = 0 then s.setArray zi h.next else s
    if h.uindex + 1 ≠ h.nmax then
      let chunk := h.baseptr + (h.uindex + 1) * size
      some (chunk, (s.setZone z { h with
        nfree := nfree, next := next, uindex := h.uindex + 1 }).hand chunk size)
    else
      h.freechunk.map fun chunk =>
        (chunk, (s.setZone z { h with
          nfree := nfree, next := next, freechunk := s.cNext chunk }).hand chunk size)
  else none

/-- The offset of the first chunk in a zone. -/
def zoneOffset (size : Nat) : Nat :=
  if (size ||| (size - 1)) + 1 = size * 2 then roundUp headerSize size else roundUp headerSize 8

/-- `rt_malloc`: the pages at `z` become a zone, and the first chunk is taken. -/
def newZone (s : SlabHeap) (zi size z : Nat) : Nat × SlabHeap :=
  let off := zoneOffset size
  let nmax := (s.zoneSize - off) / size
  let base := z * pageSize + off
  let s := s.setZone z
    { magic := slabMagic, nfree := nmax - 1, nmax := nmax, next := s.zoneArray zi, baseptr := base,
      uindex := 0, chunksize := size, zoneindex := zi, freechunk := none }
  let s := s.setArray zi (some z)
  (base, { s.hand base size with zones := z :: s.zones })

/-- `rt_malloc` where `zone_array[zi]` is empty. -/
def allocZone (rounds : Nat) (s : SlabHeap) (zi size : Nat) : Option (Nat × SlabHeap) :=
  match s.zoneFree with
  | some z =>
    some ({ s with
      zoneFree := (s.zone z).next
      zoneFreeCnt := s.zoneFreeCnt - 1
      zones := s.zones.erase z }.newZone zi size z)
  | none =>
    (s.pageAlloc rounds s.zonePageCnt).map fun r =>
      match r.1 with
      | none => (0, r.2)
      | some z => (r.2.setUsage z true).newZone zi size z

def rtMalloc (rounds : Nat) (s : SlabHeap) (size : Nat) : Option (Nat × SlabHeap) :=
  if size = 0 then some (0, s)
  else if size ≥ s.zoneLimit then
    let size := alignPage size
    (s.pageAlloc rounds (size / pageSize)).map fun r =>
      match r.1 with
      | none => (0, r.2)
      | some p =>
        (p * pageSize, { r.2 with
          memusage := Function.update r.2.memusage p ⟨.large, size / pageSize⟩
          live := (p * pageSize, size) :: r.2.live })
  else
    let (zi, size) := zoneindex size
    if zi < nzones then
      match s.zoneArray zi with
      | some z => s.allocFrom zi size z
      | none => s.allocZone rounds zi size
    else none

/-- `*pz`: `zone_array[zi]`, or the `z_next` of a zone. -/
def deref (s : SlabHeap) (zi : Nat) : Option Nat → Option Nat
  | none => s.zoneArray zi
  | some q => (s.zone q).next

/-- `*pz = v` -/
def store (s : SlabHeap) (zi : Nat) (pz v : Option Nat) : SlabHeap :=
  match pz with
  | none => s.setArray zi v
  | some q => s.setZone q { s.zone q with next := v }

/-- The loop of `rt_free`: where the pointer to `z` is. -/
def findZone (zi z : Nat) : Nat → SlabHeap → Option Nat → Option (Option Nat)
  | 0, _, _ => none
  | k + 1, s, pz =>
    match s.deref zi pz with
    | none => none
    | some q => if q = z then some pz else findZone zi z k s (some q)

/-- `rt_free`: the chunk goes to its zone, and the zone to `zone_array` if it had no free chunk. -/
def pushChunk (s : SlabHeap) (z ptr : Nat) : SlabHeap :=
  let h := s.zone z
  let s := { s.forget ptr with cNext := Function.update s.cNext ptr h.freechunk }
  if h.nfree = 0 then
    (s.setZone z { h with
      freechunk := some ptr, nfree := h.nfree + 1, next := s.zoneArray h.zoneindex }).setArray
        h.zoneindex (some z)
  else s.setZone z { h with freechunk := some ptr, nfree := h.nfree + 1 }

/-- `rt_free`: the first zone of the list of free zones goes back to the page allocator. -/
def releaseZone (rounds : Nat) (s : SlabHeap) : Option SlabHeap :=
  s.zoneFree.bind fun z =>
    { { s with
      zoneFree := (s.zone z).next
      zoneFreeCnt := s.zoneFreeCnt - 1
      zones := s.zones.erase z }.setUsage z false with }.pageFree rounds z s.zonePageCnt

/-- `rt_free`: the zone that `*pz` points to goes to the list of free zones. -/
def retireZone (s : SlabHeap) (z : Nat) (pz : Option Nat) : SlabHeap :=
  let s := s.store (s.zone z).zoneindex pz (s.zone z).next
  { s.setZone z { s.zone z with magic := -1, next := s.zoneFree } with
    zoneFree := some z
    zoneFreeCnt := s.zoneFreeCnt + 1 }

/-- `rt_free`: a zone all of whose chunks are free. -/
def freeZone (rounds : Nat) (s : SlabHeap) (z : Nat) : Option SlabHeap :=
  (findZone (s.zone z).zoneindex z rounds s none).bind fun pz =>
    let s := s.retireZone z pz
    if s.zoneFreeCnt > 2 then s.releaseZone rounds else some s

/-- `rt_free` of a pointer that is not `NULL`. -/
def rtFree (rounds : Nat) (s : SlabHeap) (ptr : Nat) : Option SlabHeap :=
  let page := ptr / pageSize
  let kup := s.memusage page
  if kup.type = .large then
    if ptr % pageSize = 0 then
      { s.forget ptr with
        memusage := Function.update s.memusage page { kup with size := 0 } }.pageFree rounds page
          kup.size
    else none
  else
    let z := page - kup.size
    if (s.zone z).magic = slabMagic then
      let s := s.pushChunk z ptr
      let h := s.zone z
      if h.nfree = h.nmax ∧ (h.next ≠ none ∨ s.zoneArray h.zoneindex ≠ some z) then
        s.freeZone rounds z
      else some s
    else none

/-- `rt_realloc` where the block, of `osize` bytes, moves: `w` is what `rt_memcpy` writes. -/
def moveBlock (rounds : Nat) (s : SlabHeap) (ptr size osize : Nat) (w : Words) :
    Option (Nat × SlabHeap) :=
  (s.rtMalloc rounds size).bind fun r =>
    if r.1 = 0 then some (0, r.2)
    else
      ((r.2.overwrite (r.1, if size > osize then osize else size) w).rtFree rounds ptr).map
        fun s => (r.1, s)

/-- `rt_realloc` of a pointer that is not `NULL`, to a size that is not 0. -/
def reallocBlock (rounds : Nat) (s : SlabHeap) (ptr size : Nat) (w : Words) :
    Option (Nat × SlabHeap) :=
  let page := ptr / pageSize
  let kup := s.memusage page
  match kup.type with
  | .large => s.moveBlock rounds ptr size (kup.size * pageSize) w
  | .small =>
    let z := page - kup.size
    if (s.zone z).magic = slabMagic then
      let size := (zoneindex size).2
      if (s.zone z).chunksize = size then some (ptr, s)
      else s.moveBlock rounds ptr size (s.zone z).chunksize w
    else none
  | .free => some (0, s)

def rtRealloc (rounds : Nat) (s : SlabHeap) (ptr size : Nat) (w : Words) :
    Option (Nat × SlabHeap) :=
  if ptr = 0 then s.rtMalloc rounds size
  else if size = 0 then (s.rtFree rounds ptr).map fun s => (0, s)
  else s.reallocBlock rounds ptr size w

end SlabHeap

open SlabHeap

inductive Act where
  | malloc (size : Nat)
  | realloc (ptr size : Nat) (w : Words)
  | free (ptr : Nat)
  /-- The owner of a block overwrites it. -/
  | write (r : Run) (w : Words)

def step (rounds : Nat) (s : SlabHeap) : Act → Option SlabHeap
  | .malloc size => if size < 2 ^ 32 then (s.rtMalloc rounds size).map Prod.snd else none
  | .realloc ptr size w =>
    if size < 2 ^ 32 ∧ (ptr = 0 ∨ s.isLive ptr = true) then
      (s.rtRealloc rounds ptr size w).map Prod.snd
    else none
  | .free ptr =>
    if ptr = 0 then some s else if s.isLive ptr = true then s.rtFree rounds ptr else none
  | .write r w => if s.live.contains r = true then some (s.overwrite r w) else none

/-- The loop of `rt_system_heap_init` that doubles `zone_size`; from 32K to 128K, twice at most. -/
def growZone (limit : Nat) : Nat → Nat → Nat
  | 0, zoneSize => zoneSize
  | k + 1, zoneSize =>
    if zoneSize < 131072 ∧ zoneSize * 2 < limit then growZone limit k (zoneSize * 2) else zoneSize

/-- `rt_system_heap_init`, over what is in the memory; none for a wrong address. -/
def rtSystemHeapInit (rounds : Nat) (w : Words) (usage : Nat → Memusage) (beginAddr endAddr : Nat) :
    Option SlabHeap :=
  let start := alignPage beginAddr
  let stop := endAddr / pageSize * pageSize
  if start ≥ stop then none
  else
    let limsize := stop - start
    let npages := limsize / pageSize
    (PageHeap.rtPageInit rounds ⟨w.next, w.page, none⟩ (start / pageSize) npages).bind fun h =>
      let zoneSize := growZone (limsize / 1024) 2 32768
      let s : SlabHeap :=
        { pages := ⟨h, []⟩, zone := w.zone, cNext := w.cNext, zoneArray := fun _ => none,
          zoneFree := none, zoneFreeCnt := 0, zoneSize := zoneSize,
          zoneLimit := min (zoneSize / 4) 16384, memusage := usage, live := [], zones := [] }
      (s.pageAlloc rounds (alignPage (npages * 4) / pageSize)).bind fun r =>
        r.1.map fun _ => r.2

end Tudu.Slab
