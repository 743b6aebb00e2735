import TuduOS.Flash.Def

/-!
# Reading the store

What `ef_env.c` reads of the flash: the environment variable (ENV) at an address, the next one of a
sector, a sector with what remains of it, and the sectors one after the other. `readEnv` also
writes: it marks an ENV whose length is none.
-/

namespace Tudu.Flash

open Bytes (Memory)
open Nor

/-- `struct env_meta_data` -/
structure EnvMeta where
  status : EnvStatus
  crcIsOk : Bool
  nameLen : Nat
  len : Nat
  valueLen : Nat
  name : List UInt8
  start : Nat
  value : Nat

/-- `struct sector_meta_data` -/
structure SectorMeta where
  checkOk : Bool
  store : StoreStatus
  dirty : DirtyStatus
  addr : Nat
  magic : Nat
  combined : Nat
  remain : Nat
  emptyEnv : Nat
  deriving DecidableEq

/-- A structure on the stack, with its address set to `FAILED_ADDR`. -/
def EnvMeta.fresh : EnvMeta :=
  { status := .unused, crcIsOk := false, nameLen := 0, len := 0, valueLen := 0, name := [],
    start := failedAddr, value := 0 }

/-- The bytes that are still to read, where the next one is, the last one, and the address found so
far. -/
def ffFrom (fl : Memory) (stop : Nat) : Nat → Nat → UInt8 → Nat → Nat
  | 0, _, lastData, addr => if lastData = 0xFF then addr else stop
  | k + 1, a, lastData, addr =>
    ffFrom fl stop k (a + 1) (fl a) (if lastData ≠ 0xFF ∧ fl a = 0xFF then a else addr)

def continueFfAddr (fl : Memory) (start stop : Nat) : Nat :=
  ffFrom fl stop (stop - start) start 0 start

def magicFrom (fl : Memory) (startBak : Nat) : Nat → Nat → Nat
  | 0, _ => failedAddr
  | k + 1, a =>
    if Bytes.get fl a 4 = envMagicWord ∧ startBak ≤ sub32 a envMagicOffset then
      sub32 a envMagicOffset
    else magicFrom fl startBak k (a + 1)

def findNextEnvAddr (fl : Memory) (start stop : Nat) : Nat :=
  magicFrom fl start (stop - start) start

/-- The bytes of a sector, with those that it is combined with. -/
def SectorMeta.bytes (sector : SectorMeta) : Nat :=
  if sector.combined = sectorNotCombined then sectorSize else mul32 sector.combined sectorSize

def getNextEnvAddr (fl : Memory) (sector : SectorMeta) (preEnv : EnvMeta) : Nat :=
  if sector.store = .empty then failedAddr
  else if preEnv.start = failedAddr then add32 sector.addr sectorHdrDataSize
  else if preEnv.start ≤ add32 sector.addr sector.bytes then
    let addr := add32 preEnv.start (if preEnv.crcIsOk then preEnv.len else 1)
    let addr := findNextEnvAddr fl addr (sub32 (add32 sector.addr sector.bytes) sectorHdrDataSize)
    if add32 sector.addr sector.bytes < addr ∨ preEnv.len = 0 then failedAddr else addr
  else failedAddr

/-- The ENV at `env.start`. -/
def readEnv (fl : Memory) (env : EnvMeta) : EnvMeta × Memory :=
  let hdr := fun f => envHdr.load fl f env.start
  let status := EnvStatus.ofCode (getStatus (fl env.start) 6)
  let len := hdr .len
  if len = 0xFFFFFFFF ∨ envAreaSize < len ∨ len < envNameLenOffset then
    -- the length was not written
    ({ env with status := .errHdr, len := envHdrDataSize, crcIsOk := false },
      if status ≠ .errHdr then writeStatus fl env.start EnvStatus.errHdr.code else fl)
  else if
    (efCalcCrc32 0 (efPortRead fl (env.start + envNameLenOffset) (len - envNameLenOffset))).toNat
      ≠ hdr .crc32 then
    ({ env with status := status, len := len, crcIsOk := false }, fl)
  else
    let nameAddr := add32 env.start envHdrDataSize
    ({ env with
        status := status
        len := len
        crcIsOk := true
        -- the buffer keeps what a longer name left behind this one
        name := efPortRead fl nameAddr (hdr .nameLen) ++ env.name.drop (hdr .nameLen)
        value := add32 nameAddr (hdr .nameLen)
        valueLen := hdr .valueLen
        nameLen := hdr .nameLen }, fl)

/-- The ENVs of a sector in use, one after the other: what they leave of it. -/
def countEnvs : Nat → Memory → SectorMeta → EnvMeta → Option (SectorMeta × Memory)
  | 0, _, _, _ => none
  | n + 1, fl, sector, env =>
    let addr := getNextEnvAddr fl sector env
    if addr = failedAddr then some (sector, fl)
    else
      let r := readEnv fl { env with start := addr }
      if r.1.crcIsOk = false ∧ r.1.status ≠ .preWrite ∧ r.1.status ≠ .errHdr then
        some ({ sector with remain := 0 }, r.2)
      else
        countEnvs n r.2
          { sector with
            emptyEnv := add32 sector.emptyEnv r.1.len
            remain := sub32 sector.remain r.1.len } r.1

/-- The end of the ENVs is where the flash is erased from. -/
def checkClean (fl : Memory) (sector : SectorMeta) : SectorMeta :=
  let ffAddr := continueFfAddr fl sector.emptyEnv (add32 sector.addr sector.bytes)
  if sector.emptyEnv ≠ ffAddr then
    { sector with emptyEnv := ffAddr, remain := sub32 sector.bytes (sub32 ffAddr sector.addr) }
  else sector

def readSectorMetaData (n : Nat) (fl : Memory) (addr : Nat) (sector : SectorMeta)
    (traversal : Bool) : Option (SectorMeta × Memory) :=
  if addr % sectorSize ≠ 0 then none
  else if sectorHdr.load fl .magic addr ≠ sectorMagicWord then
    some ({ sector with
      addr := addr, magic := sectorHdr.load fl .magic addr, checkOk := false }, fl)
  else
    let sector := { sector with
      addr := addr
      magic := sectorHdr.load fl .magic addr
      checkOk := true
      combined := sectorHdr.load fl .combined addr
      store := .ofCode (getStatus (fl addr) 4)
      dirty := .ofCode (getStatus (fl (addr + 1)) 4) }
    if traversal = false then some (sector, fl)
    else
      let sector := { sector with remain := 0, emptyEnv := add32 addr sectorHdrDataSize }
      match sector.store with
      | .empty => some ({ sector with remain := sub32 sector.bytes sectorHdrDataSize }, fl)
      | .inUse =>
        (countEnvs n fl { sector with remain := sub32 sector.bytes sectorHdrDataSize }
          .fresh).map fun r => (checkClean r.2 r.1, r.2)
      | _ => some (sector, fl)

def getNextSectorAddr (preSec : SectorMeta) : Nat :=
  if preSec.addr = failedAddr then envStartAddr
  else
    let nextAddr := add32 preSec.addr preSec.bytes
    if nextAddr < envStartAddr + envAreaSize then nextAddr else failedAddr

/-- What the iterators change: the flash, and whether a garbage collection is asked for. -/
structure Ef where
  flash : Memory
  gcRequest : Bool

section Iterator

variable {σ : Type}

/-- The sectors behind `sector`. The callback gets one and says whether to stop; `s` is what its
arguments point to. -/
def sectorsFrom (status : StoreStatus) (callback : SectorMeta → Ef → σ → Option (Bool × Ef × σ))
    (traversalEnv : Bool) : Nat → SectorMeta → Ef → σ → Option (SectorMeta × Ef × σ)
  | 0, _, _, _ => none
  | n + 1, sector, ef, s =>
    let secAddr := getNextSectorAddr sector
    if secAddr = failedAddr then some (sector, ef, s)
    else do
      let r ← readSectorMetaData n ef.flash secAddr sector false
      if status = .unused ∨ status = r.1.store then
        let r ← if traversalEnv then readSectorMetaData n r.2 secAddr r.1 true else some r
        let c ← callback r.1 { ef with flash := r.2 } s
        if c.1 then some (r.1, c.2.1, c.2.2)
        else sectorsFrom status callback traversalEnv n r.1 c.2.1 c.2.2
      else sectorsFrom status callback traversalEnv n r.1 { ef with flash := r.2 } s

def sectorIterator (n : Nat) (status : StoreStatus)
    (callback : SectorMeta → Ef → σ → Option (Bool × Ef × σ)) (traversalEnv : Bool)
    (sector : SectorMeta) (ef : Ef) (s : σ) : Option (SectorMeta × Ef × σ) :=
  sectorsFrom status callback traversalEnv n { sector with addr := failedAddr } ef s

end Iterator

end Tudu.Flash
