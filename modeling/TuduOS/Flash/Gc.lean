import TuduOS.Flash.Delete

/-!
# Garbage collection

`new_env`, and the garbage collection that it makes when `alloc_env` finds no space. A `Run` is what
a call comes to, with the calls of `alloc_env` and `gc_collect` that it has made.

* Without a value: an `EF_ASSERT` fails, or a loop takes more than `n` rounds.
* `stack`: what is on the stack where a `sector_meta_data` is not initialized.
* `new_env` is not called while the store is recovered (`in_recovery_check`).
-/

namespace Tudu.Flash

open Bytes (Memory)
open Nor

instance (s : EnvStatus) : Decidable s.Live := inferInstanceAs (Decidable (_ ∨ _))

inductive Event where
  /-- `alloc_env`, with what it gets. -/
  | alloc (sector : SectorMeta) (ef : Ef) (envSize : Nat)
  | collect

structure Run (α : Type) where
  events : List Event
  out : Option α

namespace Run

variable {α β : Type}

instance : Monad Run where
  pure a := ⟨[], some a⟩
  bind x f :=
    ⟨x.events ++ x.out.elim [] fun a => (f a).events, x.out.bind fun a => (f a).out⟩

/-- A part that makes none of these calls. -/
def lift (x : Option α) : Run α := ⟨[], x⟩

def log (e : Event) : Run Unit := ⟨[e], some ()⟩

end Run

def envNameMax : Nat := 32
def efSecRemainThreshold : Nat := envHdrDataSize + envNameMax

def updateSecStatus (fl : Memory) (sector : SectorMeta) (newEnvLen : Nat) : Memory :=
  match sector.store with
  | .empty => writeStatus fl sector.addr StoreStatus.inUse.code
  | .inUse =>
    if sector.remain < efSecRemainThreshold ∨
        sub32 sector.remain newEnvLen < efSecRemainThreshold then
      writeStatus fl sector.addr StoreStatus.full.code
    else fl
  | _ => fl

/-- The first `k` rounds of the loop that copies `len` bytes, 32 at a time. -/
def copyBlocks (fl : Memory) (src dst len : Nat) : Nat → Memory
  | 0 => fl
  | k + 1 =>
    let fl := copyBlocks fl src dst len k
    program fl (dst + 32 * k) (min 32 (len - 32 * k)) fun i => fl (src + 32 * k + i)

def callAllocEnv (n : Nat) (sector : SectorMeta) (ef : Ef) (envSize : Nat) :
    Run (Nat × SectorMeta × Ef) :=
  ⟨[.alloc sector ef envSize], allocEnv n sector ef envSize⟩

/-- The ENV is written at `envAddr`, and deleted where it was. -/
def copyEnv (fl : Memory) (sector : SectorMeta) (env : EnvMeta) (envAddr : Nat) : Memory :=
  let fl := updateSecStatus fl sector env.len
  let fl := writeStatus fl envAddr EnvStatus.preWrite.code
  let envLen := sub32 env.len envMagicOffset
  let fl := copyBlocks fl (env.start + envMagicOffset) (envAddr + envMagicOffset) envLen
    ((envLen + 31) / 32)
  let fl := writeStatus fl envAddr EnvStatus.write.code
  delStatus fl env.start true

def moveEnv (n : Nat) (stack : SectorMeta) (ef : Ef) (env : EnvMeta) : Run (EfErrCode × Ef) := do
  let fl := if env.status = .write then delStatus ef.flash env.start false else ef.flash
  let r ← callAllocEnv n stack { ef with flash := fl } env.len
  if r.1 = failedAddr then pure (.envFull, r.2.2)
  else pure (.noErr, { r.2.2 with flash := copyEnv r.2.2.flash r.2.1 env r.1 })

/-- The ENVs of a sector behind `env`: the live ones are moved. -/
def collectEnvs (stack sector : SectorMeta) : Nat → EnvMeta → Ef → Run Ef
  | 0, _, _ => Run.lift none
  | n + 1, env, ef =>
    let addr := getNextEnvAddr ef.flash sector env
    if addr = failedAddr then pure ef
    else
      let r := readEnv ef.flash { env with start := addr }
      if r.1.crcIsOk = true ∧ r.1.status.Live then do
        let s ← moveEnv n stack { ef with flash := r.2 } r.1
        collectEnvs stack sector n r.1 s.2
      else collectEnvs stack sector n r.1 { ef with flash := r.2 }

def doGc (n : Nat) (stack sector : SectorMeta) (ef : Ef) : Run Ef :=
  if sector.checkOk = true ∧ (sector.dirty = .dirty ∨ sector.dirty = .gc) then do
    let fl := writeStatus ef.flash (sector.addr + sectorHdr.off .dirty) DirtyStatus.gc.code
    let ef ← collectEnvs stack sector n .fresh { ef with flash := fl }
    pure { ef with flash := formatSector ef.flash sector.addr sectorNotCombined }
  else pure ef

/-- `sector_iterator` with `do_gc`. -/
def collectFrom (stack : SectorMeta) : Nat → SectorMeta → Ef → Run Ef
  | 0, _, _ => Run.lift none
  | n + 1, sector, ef =>
    let secAddr := getNextSectorAddr sector
    if secAddr = failedAddr then pure ef
    else do
      let r ← Run.lift (readSectorMetaData n ef.flash secAddr sector false)
      let ef ← doGc n stack r.1 { ef with flash := r.2 }
      collectFrom stack n r.1 ef

def gcCheckCb (sector : SectorMeta) (ef : Ef) (emptySec : Nat) : Option (Bool × Ef × Nat) :=
  some (false, ef, if sector.checkOk = true then emptySec + 1 else emptySec)

/-- The sectors are collected if there are few empty ones. -/
def gcSectors (n : Nat) (stack sector : SectorMeta) (ef : Ef) (emptySec : Nat) : Run Ef :=
  if emptySec ≤ efGcEmptySecThreshold then
    collectFrom stack n { sector with addr := failedAddr } ef
  else pure ef

def gcCollect (n : Nat) (stack : SectorMeta) (ef : Ef) : Run Ef := do
  let r ← Run.lift (sectorIterator n .empty gcCheckCb false stack ef 0)
  let ef ← gcSectors n stack r.1 r.2.1 r.2.2
  pure { ef with gcRequest := false }

def newEnv (n : Nat) (stack sector : SectorMeta) (ef : Ef) (envSize : Nat) :
    Run (Nat × SectorMeta × Ef) := do
  let r ← callAllocEnv n sector ef envSize
  if r.1 = failedAddr ∧ r.2.2.gcRequest = true then do
    Run.log .collect
    let ef ← gcCollect n stack r.2.2
    callAllocEnv n r.2.1 ef envSize
  else pure r

/-! ## The calls of a run -/

/-- It does not collect garbage. -/
def Run.Plain {α : Type} (x : Run α) : Prop := .collect ∉ x.events

section

variable {α β : Type} {x : Run α} {f : α → Run β} {n : Nat} {stack sector m : SectorMeta} {ef : Ef}
  {env : EnvMeta} {envSize : Nat}

theorem bind_none (h : x.out = none) : (x >>= f) = ⟨x.events, none⟩ := by
  simp [Bind.bind, h]

theorem bind_some {a : α} (h : x.out = some a) :
    (x >>= f) = ⟨x.events ++ (f a).events, (f a).out⟩ := by
  simp [Bind.bind, h]

theorem mem_bind_left {e : Event} (h : e ∈ x.events) : e ∈ (x >>= f).events :=
  List.mem_append_left _ h

namespace Run.Plain

theorem bind (hx : x.Plain) (hf : ∀ a, (f a).Plain) : (x >>= f).Plain := by
  cases ho : x.out with
  | none =>
    rw [bind_none ho]
    exact hx
  | some a =>
    rw [bind_some ho]
    exact List.not_mem_append hx (hf a)

theorem pure (a : α) : (Pure.pure a : Run α).Plain := List.not_mem_nil

theorem lift (o : Option α) : (Run.lift o).Plain := List.not_mem_nil

theorem callAllocEnv : (callAllocEnv n sector ef envSize).Plain := by
  intro h
  cases List.mem_singleton.mp h

theorem moveEnv : (moveEnv n stack ef env).Plain := by
  refine callAllocEnv.bind fun r => ?_
  split
  · exact pure _
  · exact pure _

theorem collectEnvs : (collectEnvs stack sector n env ef).Plain := by
  induction n generalizing env ef with
  | zero => exact lift none
  | succ n ih =>
    unfold Tudu.Flash.collectEnvs
    dsimp only
    split
    · exact pure ef
    · split
      · exact moveEnv.bind fun s => ih
      · exact ih

theorem doGc : (doGc n stack sector ef).Plain := by
  unfold Tudu.Flash.doGc
  split
  · exact collectEnvs.bind fun ef => pure _
  · exact pure ef

theorem collectFrom : (collectFrom stack n sector ef).Plain := by
  induction n generalizing sector ef with
  | zero => exact lift none
  | succ n ih =>
    unfold Tudu.Flash.collectFrom
    dsimp only
    split
    · exact pure ef
    · exact (lift _).bind fun r => doGc.bind fun ef => ih

theorem gcCollect : (gcCollect n stack ef).Plain := by
  refine (lift _).bind fun r => bind ?_ fun ef => pure _
  unfold gcSectors
  split
  · exact collectFrom
  · exact pure _

end Run.Plain

end

end Tudu.Flash
