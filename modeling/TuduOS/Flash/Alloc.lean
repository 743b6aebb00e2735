import TuduOS.Flash.Read

/-!
# Space for an environment variable

`alloc_env`: a sector in use with enough space, else an empty one, else empty sectors in a row that
become one combined sector (`contsector_wander_find`).

`alloc_env` is in two parts: `allocSearch` looks for one sector, `allocCombine` combines several.
-/

namespace Tudu.Flash

open Bytes (Memory)
open Nor

/-- A number of an `int`. -/
def int32 (x : Int) : Int := x.bmod (2 ^ 32)

/-- The counters of the empty sectors and of the sectors in use. -/
def sectorStatisticsCb (sector : SectorMeta) (ef : Ef) (s : Nat × Nat) :
    Option (Bool × Ef × (Nat × Nat)) :=
  if sector.checkOk ∧ sector.store = .empty then some (false, ef, (s.1 + 1, s.2))
  else if sector.checkOk ∧ sector.store = .inUse then some (false, ef, (s.1, s.2 + 1))
  else some (false, ef, s)

/-- `emptyEnv` is `*arg2`. -/
def allocEnvCb (envSize : Nat) (sector : SectorMeta) (ef : Ef) (emptyEnv : Nat) :
    Option (Bool × Ef × Nat) :=
  if sector.checkOk ∧ envSize < sector.remain ∧
      (sector.dirty = .clean ∨ (sector.dirty = .dirty ∧ ef.gcRequest = false)) then
    some (true, ef, sector.emptyEnv)
  else some (false, ef, emptyEnv)

/-- The sectors are read, and printed. -/
def sectorWander : Nat → Memory → SectorMeta → Option Memory
  | 0, _, _ => none
  | n + 1, fl, sector =>
    let secAddr := getNextSectorAddr sector
    if secAddr = failedAddr then some fl
    else do
      let r ← readSectorMetaData n fl secAddr sector true
      sectorWander n r.2 r.1

/-- The local variables of `contsector_wander_find`, with the sector that it reads. -/
structure Wander where
  sector : SectorMeta
  envSizeTemp : Int
  firstSecAddr : Nat

/-- The loop of `contsector_wander_find`. -/
def contsectorWander (envSize : Nat) : Nat → Memory → Wander → Option (Wander × Memory)
  | 0, _, _ => none
  | n + 1, fl, w =>
    let secAddr := getNextSectorAddr w.sector
    if secAddr = failedAddr then some (w, fl)
    else do
      let (sector, fl) ← readSectorMetaData n fl secAddr w.sector true
      if sector.checkOk = false then contsectorWander envSize n fl { w with sector := sector }
      else if sector.store = .empty ∧ sector.combined = sectorNotCombined then
        let envSizeTemp := int32 (w.envSizeTemp - sectorSize)
        if envSizeTemp < -(sectorHdrDataSize : Int) then
          some ({ sector := sector
                  envSizeTemp := envSizeTemp
                  firstSecAddr := if w.firstSecAddr = failedAddr then 0 else w.firstSecAddr }, fl)
        else
          contsectorWander envSize n fl { w with sector := sector, envSizeTemp := envSizeTemp }
      else
        -- the low bits of the address tell how many sectors are combined
        contsectorWander envSize n fl
          { sector := sector
            envSizeTemp := int32 envSize
            firstSecAddr :=
              if sector.combined = sectorNotCombined then secAddr
              else add32 secAddr sector.combined }

def contsectorWanderFind (n : Nat) (sector : SectorMeta) (fl : Memory) (envSize : Nat) :
    Option (Nat × SectorMeta × Memory) :=
  if ¬ sectorSize - sectorHdrDataSize < envSize then none
  else do
    let (w, fl) ← contsectorWander envSize n fl
      { sector := sector, envSizeTemp := int32 envSize, firstSecAddr := failedAddr }
    let first := w.firstSecAddr
    if -(sectorHdrDataSize : Int) < w.envSizeTemp then some (failedAddr, w.sector, fl)
    else if 0 < first % sectorSize then
      some (add32 (add32 (alignDown first) (mul32 (first % sectorSize) sectorSize))
        sectorHdrDataSize, w.sector, fl)
    else
      let (sector, fl) ← readSectorMetaData n fl first w.sector true
      -- the sum of the `int`s becomes a `size_t`
      if ((w.envSizeTemp + sectorSize) % 4294967296).toNat ≤ sector.remain then
        some (sector.emptyEnv, sector, fl)
      else some (add32 (add32 sector.addr sectorSize) sectorHdrDataSize, sector, fl)

/-- The sectors `1, ..., k` behind the one at `sectorAddr` are erased. -/
def eraseBehind (sectorAddr : Nat) : Nat → Memory → Memory
  | 0, fl => fl
  | k + 1, fl =>
    erase (eraseBehind sectorAddr k fl) (add32 sectorAddr (mul32 (k + 1) sectorSize)) sectorSize

structure Search where
  sector : SectorMeta
  ef : Ef
  emptySector : Nat
  emptyEnv : Nat

/-- A sector with enough space is looked for. -/
def allocSearch (n : Nat) (sector : SectorMeta) (ef : Ef) (envSize : Nat) : Option Search := do
  let (sector, ef, emptySector, usingSector) ←
    sectorIterator n .unused sectorStatisticsCb false sector ef (0, 0)
  let (sector, ef, emptyEnv) ←
    if 0 < usingSector then
      sectorIterator n .inUse (allocEnvCb envSize) true sector ef failedAddr
    else some (sector, ef, failedAddr)
  if 0 < emptySector ∧ emptyEnv = failedAddr then
    if efGcEmptySecThreshold < emptySector ∨ ef.gcRequest = true then do
      let (sector, ef, emptyEnv) ←
        sectorIterator n .empty (allocEnvCb envSize) true sector ef failedAddr
      some { sector, ef, emptySector, emptyEnv }
    else some { sector, ef := { ef with gcRequest := true }, emptySector, emptyEnv }
  else some { sector, ef, emptySector, emptyEnv }

/-- Whether `alloc_env` goes on to combine sectors. -/
def Search.Combines (q : Search) : Prop := 0 < q.emptySector ∧ q.emptyEnv = failedAddr

instance (q : Search) : Decidable q.Combines := inferInstanceAs (Decidable (_ ∧ _))

/-- Empty sectors in a row become one. -/
def allocCombine (n : Nat) (sector : SectorMeta) (ef : Ef) (envSize : Nat) :
    Option (Nat × SectorMeta × Ef) := do
  let contSectorSize := envSize / sectorSize + 1
  let fl ← sectorWander n ef.flash { sector with addr := failedAddr }
  let (emptyEnv, sector, fl) ← contsectorWanderFind n { sector with addr := failedAddr } fl envSize
  if emptyEnv = failedAddr then some (failedAddr, sector, { ef with flash := fl })
  else
    let sectorAddr := alignDown emptyEnv
    let fl := eraseBehind sectorAddr (contSectorSize - 1) fl
    let (sector, fl) ← readSectorMetaData n fl sectorAddr sector true
    some (emptyEnv, sector,
      { ef with flash := program fl (sectorAddr + sectorHdr.off .combined) 4 (word contSectorSize) })

def allocEnv (n : Nat) (sector : SectorMeta) (ef : Ef) (envSize : Nat) :
    Option (Nat × SectorMeta × Ef) := do
  let q ← allocSearch n sector ef envSize
  if q.Combines then allocCombine n q.sector q.ef envSize
  else some (q.emptyEnv, q.sector, q.ef)

end Tudu.Flash
