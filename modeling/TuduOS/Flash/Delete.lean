import TuduOS.Flash.AllocSafe
import TuduOS.Flash.Find

/-!
# Deleting an environment variable

`del_env` clears a bit in the status of the ENV, and marks the sector dirty in which the ENV starts.
Of combined sectors only the first one has a header; an ENV that starts in a later one has, in the
place of the dirty status, a byte of an ENV.

* `delEnv_metadata_iff`: when only the status and the dirty status change.
* `delEnv_corrupts`: an ENV behind a long one. Deleting it changes the value of the long one.
-/

namespace Tudu.Flash

open Bytes (Memory)
open Nor Tiling

inductive EfErrCode where
  | noErr | nameErr | envFull
  deriving DecidableEq

/-- The ENV that is deleted: the one that the caller has, or the one that is found. -/
def delTarget (n : Nat) (fl : Memory) (key : List UInt8) (oldEnv : Option EnvMeta)
    (sector : SectorMeta) (env : EnvMeta) : Option (Option EnvMeta × Memory) :=
  match oldEnv with
  | some old => some (some old, fl)
  | none => (findEnv n fl key sector env).map fun r => (if r.1 then some r.2.1 else none, r.2.2)

def dirtyStatusAddr (a : Nat) : Nat := alignDown a + sectorHdr.off .dirty

/-- `read_status` at the place of the dirty status is `SECTOR_DIRTY_FALSE`. -/
def ReadsClean (fl : Memory) (a : Nat) : Prop :=
  DirtyStatus.ofCode (getStatus (fl (dirtyStatusAddr a)) 4) = .clean

instance (fl : Memory) (a : Nat) : Decidable (ReadsClean fl a) :=
  inferInstanceAs (Decidable (_ = _))

def delCode (completeDel : Bool) : Nat :=
  if completeDel then EnvStatus.deleted.code else EnvStatus.preDelete.code

/-- The new status of the ENV at `a`, and the dirty status of its sector. -/
def delStatus (fl : Memory) (a : Nat) (completeDel : Bool) : Memory :=
  if ReadsClean (writeStatus fl a (delCode completeDel)) a then
    writeStatus (writeStatus fl a (delCode completeDel)) (dirtyStatusAddr a) DirtyStatus.dirty.code
  else writeStatus fl a (delCode completeDel)

/-- `sector` and `env`: what is on the stack. -/
def delEnv (n : Nat) (fl : Memory) (key : List UInt8) (oldEnv : Option EnvMeta)
    (completeDel : Bool) (sector : SectorMeta) (env : EnvMeta) : Option (EfErrCode × Memory) :=
  (delTarget n fl key oldEnv sector env).map fun r =>
    match r.1 with
    | some old => (.noErr, delStatus r.2 old.start completeDel)
    | none => (.nameErr, r.2)

/-! ## The property -/

/-- Of the sectors `l`, a call has changed the status of the ENV at `a` and the dirty status of the
sector at `p` only, and every other ENV is there as before. -/
structure MetadataOnly (l : List Sector) (fl fl' : Memory) (p a : Nat) : Prop where
  bytes : ∀ x, x ≠ a + envHdr.off .status → x ≠ p + sectorHdr.off .dirty → fl' x = fl x
  others : ∀ y ∈ envsOf l, y.1 ≠ a → EnvAt fl' y.1 y.2

variable {fl fl' : Memory} {a p n : Nat} {e : Env} {s : Sector} {l : List Sector} {m : EnvMeta}

/-! ## Status bytes -/

theorem getStatus_four (b : UInt8) : getStatus b 4 =
    if b &&& 0x20 = 0 then 3 else if b &&& 0x40 = 0 then 2 else if b &&& 0x80 = 0 then 1 else 0 :=
  rfl

theorem getStatus_six (b : UInt8) : getStatus b 6 =
    if b &&& 0x08 = 0 then 5 else if b &&& 0x10 = 0 then 4 else if b &&& 0x20 = 0 then 3 else
      if b &&& 0x40 = 0 then 2 else if b &&& 0x80 = 0 then 1 else 0 :=
  rfl

theorem clean_iff (b : UInt8) : DirtyStatus.ofCode (getStatus b 4) = .clean ↔
    b &&& 0x20 ≠ 0 ∧ b &&& 0x40 ≠ 0 ∧ b &&& 0x80 = 0 := by
  rw [getStatus_four]
  split
  · next h => simp [DirtyStatus.ofCode, h]
  · next h1 =>
    split
    · next h => simp [DirtyStatus.ofCode, h]
    · next h2 =>
      split
      · next h => simp [DirtyStatus.ofCode, h1, h2, h]
      · next h => simp [DirtyStatus.ofCode, h]

/-- Of a live ENV one of two bits is cleared. -/
theorem live_bits {b : UInt8} {x : EnvStatus} (hx : x.Live) (h : getStatus b 6 = x.code) :
    b &&& 0x20 = 0 ∨ b &&& 0x40 = 0 := by
  rw [getStatus_six] at h
  rcases hx with rfl | rfl
  · grind [EnvStatus.code]
  · grind [EnvStatus.code]

theorem and_cleared {b k d : UInt8} (h : b &&& k = 0) : (b &&& d) &&& k = 0 := by
  rw [UInt8.and_assoc, UInt8.and_comm d, ← UInt8.and_assoc, h, UInt8.zero_and]

/-- Marking a byte dirty that reads as clean changes it. -/
theorem dirty_changes {b : UInt8} (h : DirtyStatus.ofCode (getStatus b 4) = .clean) :
    b &&& setStatus DirtyStatus.dirty.code ≠ b := by
  intro he
  refine ((clean_iff b).mp h).2.1 ?_
  have hz : (0xBF : UInt8) &&& 0x40 = 0 := by decide
  have hs : setStatus DirtyStatus.dirty.code = 0xBF := by decide
  rw [hs] at he
  rw [← he, UInt8.and_assoc, hz, UInt8.and_zero]

theorem writeStatus_self {k : Nat} (hk : k ≠ 0) : writeStatus fl a k a = fl a &&& setStatus k := by
  unfold writeStatus program
  rw [if_neg hk, if_pos ⟨Nat.le_refl _, Nat.lt_succ_self _⟩]

theorem writeStatus_apart {k x : Nat} (hx : x ≠ a) : writeStatus fl a k x = fl x := by
  unfold writeStatus
  split
  · rfl
  · exact program_apart (by omega)

/-- The first write does not change how the byte in the place of the dirty status reads. -/
theorem readsClean_written {x : EnvStatus} {k : Nat} (hx : x.Live) (ha : getStatus (fl a) 6 = x.code) :
    ReadsClean (writeStatus fl a k) a ↔ ReadsClean fl a := by
  unfold ReadsClean
  by_cases he : dirtyStatusAddr a = a
  · -- it is the status of the ENV itself
    have hno : ∀ d, DirtyStatus.ofCode (getStatus (fl a &&& d) 4) ≠ .clean := by
      intro d hc
      obtain ⟨h1, h2, -⟩ := (clean_iff _).mp hc
      rcases live_bits hx ha with h | h
      · exact h1 (and_cleared h)
      · exact h2 (and_cleared h)
    have hold : DirtyStatus.ofCode (getStatus (fl a) 4) ≠ .clean := by
      have h := hno (-1)
      rwa [UInt8.and_neg_one] at h
    have hnew : DirtyStatus.ofCode (getStatus (writeStatus fl a k a) 4) ≠ .clean := by
      by_cases hk : k = 0
      · unfold writeStatus
        rw [if_pos hk]
        exact hold
      · rw [writeStatus_self hk]
        exact hno _
    rw [he]
    exact ⟨fun h => absurd h hnew, fun h => absurd h hold⟩
  · rw [writeStatus_apart he]

/-! ## What the deletion writes -/

theorem delStatus_apart {c : Bool} {x : Nat} (hx : x ≠ a)
    (hd : x ≠ dirtyStatusAddr a) : delStatus fl a c x = fl x := by
  unfold delStatus
  split
  · rw [writeStatus_apart hd, writeStatus_apart hx]
  · exact writeStatus_apart hx

theorem delStatus_unclean {c : Bool} {x : Nat} {y : EnvStatus} (hy : y.Live)
    (ha : getStatus (fl a) 6 = y.code) (hd : ¬ ReadsClean fl a) (hx : x ≠ a) :
    delStatus fl a c x = fl x := by
  have hno := fun k => mt (readsClean_written (k := k) hy ha).mp hd
  unfold delStatus
  rw [if_neg (hno _)]
  exact writeStatus_apart hx

/-- The status of a live ENV does not read as the one of a clean sector. -/
theorem readsClean_apart {y : EnvStatus} (hy : y.Live) (ha : getStatus (fl a) 6 = y.code)
    (hd : ReadsClean fl a) : dirtyStatusAddr a ≠ a := by
  intro he
  unfold ReadsClean at hd
  rw [he] at hd
  obtain ⟨h1, h2, -⟩ := (clean_iff _).mp hd
  exact (live_bits hy ha).elim h1 h2

theorem delStatus_clean {c : Bool} {y : EnvStatus} (hy : y.Live) (ha : getStatus (fl a) 6 = y.code)
    (hd : ReadsClean fl a) : delStatus fl a c (dirtyStatusAddr a) ≠ fl (dirtyStatusAddr a) := by
  have hyes := fun k => (readsClean_written (k := k) hy ha).mpr hd
  have hne := readsClean_apart hy ha hd
  unfold delStatus
  rw [if_pos (hyes _), writeStatus_self (by decide), writeStatus_apart hne]
  exact dirty_changes hd

/-! ## Where the ENVs are -/

/-- Two ENVs of the area do not overlap. -/
theorem envsOf_cases {y z : Nat × Env} (hy : y ∈ envsOf l) (hz : z ∈ envsOf l) :
    y = z ∨ y.1 + y.2.len ≤ z.1 ∨ z.1 + z.2.len ≤ y.1 := by
  obtain ⟨u, hu, hy⟩ := List.mem_flatMap.mp hy
  obtain ⟨w, hw, hz⟩ := List.mem_flatMap.mp hz
  have hyb := place_bound hy
  have hzb := place_bound hz
  have huf := u.2.used_le
  have hwf := w.2.used_le
  have hused : u.2.used = total Env.len u.2.envs := rfl
  have hwused : w.2.used = total Env.len w.2.envs := rfl
  rcases place_cases hu hw with rfl | h | h
  · exact place_cases hy hz
  · exact .inr (.inl (by omega))
  · exact .inr (.inr (by omega))

/-- An ENV of the area is in no header. -/
theorem envsOf_header {y : Nat × Env} {x : Nat × Sector} (hy : y ∈ envsOf l)
    (hx : x ∈ place Sector.bytes envStartAddr l) :
    y.1 + y.2.len ≤ x.1 ∨ x.1 + sectorHdrDataSize ≤ y.1 := by
  obtain ⟨u, hu, hy⟩ := List.mem_flatMap.mp hy
  have hyb := place_bound hy
  have huf := u.2.used_le
  have hxf := x.2.used_le
  have hused : u.2.used = total Env.len u.2.envs := rfl
  rcases place_cases hu hx with rfl | h | h
  · exact .inr hyb.1
  · exact .inl (by omega)
  · exact .inr (by omega)

/-- The search changes nothing. -/
theorem delTarget_flash {key : List UInt8} {oldEnv old : Option EnvMeta} {sector : SectorMeta}
    {env : EnvMeta} (hl : Area fl l) (hn : envAreaSize ≤ n)
    (h : delTarget n fl key oldEnv sector env = some (old, fl')) : fl' = fl := by
  unfold delTarget at h
  split at h
  · cases h
    rfl
  · have hlen := hl.start.length_le
    have hsize : sectorSize = 4096 := rfl
    have harea : envAreaSize = 49152 := rfl
    have hvisit : Visited (envIterator n (findEnvCb key) sector env fl false) fl
        (visit (findEnvCb key) (envsOf l) env.name false) :=
      envIteratorFrom_visited (behind_start rfl) hl.start (by omega)
    obtain ⟨m, hr, -⟩ := hvisit
    unfold findEnv at h
    rw [hr] at h
    cases h
    rfl

/-- **What a deletion changes.** Of an area with an ENV in use at `a` in the sector at `p`, a call
that deletes the ENV changes its status and the dirty status of its sector only, if and only if the
ENV starts in the first of its combined sectors or the byte in the place of the dirty status of a
later one does not read as the one of a clean sector. -/
theorem delEnv_metadata_iff {key : List UInt8} {oldEnv : Option EnvMeta} {completeDel : Bool}
    {sector : SectorMeta} {env : EnvMeta} (hl : Area fl l) (hn : envAreaSize ≤ n)
    (hs : (p, s) ∈ place Sector.bytes envStartAddr l)
    (he : (a, e) ∈ place Env.len (p + sectorHdrDataSize) s.envs) (hlive : e.status.Live)
    (ht : delTarget n fl key oldEnv sector env = some (some m, fl')) (hm : m.start = a) :
    ∃ fl', delEnv n fl key oldEnv completeDel sector env = some (.noErr, fl') ∧
      (MetadataOnly l fl fl' p a ↔ alignDown a = p ∨ ¬ ReadsClean fl a) := by
  obtain rfl := delTarget_flash hl hn ht
  refine ⟨delStatus fl' a completeDel, by rw [← hm]; unfold delEnv; rw [ht]; rfl, ?_⟩
  have hmem : (a, e) ∈ envsOf l := List.mem_flatMap.mpr ⟨(p, s), hs, he⟩
  have hat : EnvAt fl' a e := (hl.sectors _ hs).envs _ he
  have hst : envHdr.off .status = 0 := rfl
  have hhdr : sectorHdrDataSize = 16 := rfl
  have hoff : sectorHdr.off .dirty = 1 := rfl
  have hdown : dirtyStatusAddr a = alignDown a + 1 := rfl
  have hlen := e.le_len
  -- the other ENVs are in neither byte
  have hothers : (∀ x, x ≠ a + envHdr.off .status → x ≠ p + sectorHdr.off .dirty →
      delStatus fl' a completeDel x = fl' x) → MetadataOnly l fl' (delStatus fl' a completeDel) p a := by
    intro hbytes
    refine ⟨hbytes, fun y hy hne => ?_⟩
    obtain ⟨u, hu, hyu⟩ := List.mem_flatMap.mp hy
    have hylen := y.2.le_len
    refine ((hl.sectors _ hu).envs _ hyu).congr fun x h1 h2 => hbytes x ?_ ?_
    · rcases envsOf_cases hy hmem with rfl | h | h
      · exact absurd rfl hne
      · omega
      · change a + e.len ≤ _ at h
        omega
    · rcases envsOf_header hy hs with h | h
      · change _ ≤ p at h
        omega
      · change p + _ ≤ _ at h
        omega
  constructor
  · intro h
    by_contra hno
    obtain ⟨hp, hclean⟩ := not_or.mp hno
    have hclean := not_not.mp hclean
    refine delStatus_clean (c := completeDel) hlive hat.status hclean (h.bytes _ ?_ ?_)
    · exact readsClean_apart hlive hat.status hclean
    · omega
  · rintro (hp | hno)
    · refine hothers fun x h1 h2 => delStatus_apart h1 ?_
      rw [hdown, hp]
      exact h2
    · exact hothers fun x h1 _ => delStatus_unclean hlive hat.status hno h1

/-! ## A short ENV behind a long one -/

def longEnv : Env := ⟨.write, [0x66], List.replicate 5000 0x61⟩

def shortEnv : Env := ⟨.write, [0x65], [1]⟩

theorem longEnv_len : longEnv.len = 5025 := by
  unfold Env.len longEnv envHdrDataSize
  simp only [List.length_replicate, List.length_cons, List.length_nil]

theorem shortEnv_len : shortEnv.len = 26 := rfl

theorem pair_filled : StoreStatus.inUse = .empty ↔ [longEnv, shortEnv] = [] := by
  constructor <;> intro h <;> cases h

theorem pair_fits : sectorHdrDataSize + total Env.len [longEnv, shortEnv] ≤
    (if 2 = sectorNotCombined then 1 else 2) * sectorSize := by
  rw [total_cons, total_cons, total_nil, longEnv_len, shortEnv_len]
  decide

/-- Two combined sectors. -/
def pairSector : Sector where
  store := .inUse
  dirty := .clean
  combined := 2
  envs := [longEnv, shortEnv]
  ready := StoreStatus.noConfusion
  combined_pos := Nat.zero_lt_two
  empty_iff := pair_filled
  fits := pair_fits

/-- The checksum of an ENV is written to its header. -/
def putCrc (fl : Memory) (a len : Nat) : Memory :=
  Bytes.set fl (a + envHdr.off .crc32) 4
    (efCalcCrc32 0 (efPortRead fl (a + envNameLenOffset) (len - envNameLenOffset))).toNat

def pairHead : List UInt8 :=
  [0x3F, 0x7F, 0xFF, 0xFF, 0x45, 0x46, 0x34, 0x30, 2, 0, 0, 0, 0xFF, 0xFF, 0xFF, 0xFF,
    0x3F, 0xFF, 0xFF, 0xFF, 0x4B, 0x56, 0x34, 0x30, 0xA1, 0x13, 0, 0, 0, 0, 0, 0,
    1, 0xFF, 0xFF, 0xFF, 0x88, 0x13, 0, 0, 0x66]

def shortBytes : List UInt8 :=
  [0x3F, 0xFF, 0xFF, 0xFF, 0x4B, 0x56, 0x34, 0x30, 26, 0, 0, 0, 0, 0, 0, 0,
    1, 0xFF, 0xFF, 0xFF, 1, 0, 0, 0, 0x65, 1]

/-- The two ENVs without their checksums, in front of empty sectors. -/
def pairBytes : Memory := fun x =>
  if x < 41 then pairHead.getD x 0xFF
  else if x < 5041 then 0x61
  else if x < 8192 then shortBytes.getD (x - 5041) 0xFF
  else formatArea (fun _ => 0xFF) x

def pairFlash : Memory := putCrc (putCrc pairBytes 16 5025) 5041 26

theorem putCrc_apart {len x : Nat} (hx : x < a + 12 ∨ a + 16 ≤ x) : putCrc fl a len x = fl x := by
  have hoff : envHdr.off .crc32 = 12 := rfl
  unfold putCrc
  exact if_neg (by omega)

theorem putCrc_crc {len : Nat} :
    (efCalcCrc32 0 (efPortRead (putCrc fl a len) (a + envNameLenOffset) (len - envNameLenOffset))).toNat =
      envHdr.load (putCrc fl a len) .crc32 a := by
  have hoff : envNameLenOffset = 16 := rfl
  have hsame : efPortRead (putCrc fl a len) (a + envNameLenOffset) (len - envNameLenOffset) =
      efPortRead fl (a + envNameLenOffset) (len - envNameLenOffset) :=
    efPortRead_congr fun x h1 _ => putCrc_apart (.inr (by omega))
  rw [hsame]
  symm
  have hlt := (efCalcCrc32 0 (efPortRead fl (a + envNameLenOffset) (len - envNameLenOffset))).toNat_lt
  exact Bytes.get_set_self.trans (Nat.mod_eq_of_lt hlt)

theorem longEnv_at : EnvAt pairFlash 16 longEnv where
  status := by decide
  magic := by decide
  len := by
    rw [longEnv_len]
    decide
  crc := by
    rw [longEnv_len]
    -- the checksum of the short one is written behind
    have hread : efPortRead pairFlash (16 + envNameLenOffset) (5025 - envNameLenOffset) =
        efPortRead (putCrc pairBytes 16 5025) (16 + envNameLenOffset) (5025 - envNameLenOffset) :=
      efPortRead_congr fun x _ h2 => putCrc_apart (.inl (by
        change x < 16 + 16 + (5025 - 16) at h2
        omega))
    have hload : envHdr.load pairFlash .crc32 16 =
        envHdr.load (putCrc pairBytes 16 5025) .crc32 16 :=
      envHdr.load_congr fun x _ h2 => putCrc_apart (.inl (by
        change x < 16 + 24 at h2
        omega))
    rw [hread, hload]
    exact putCrc_crc
  nameLen := by decide
  valueLen := by
    show _ = (List.replicate 5000 (0x61 : UInt8)).length
    rw [List.length_replicate]
    decide
  name := by decide
  value := by
    show efPortRead pairFlash 41 (List.replicate 5000 (0x61 : UInt8)).length = List.replicate 5000 0x61
    rw [List.length_replicate]
    have hbyte : ∀ i ∈ List.range 5000, pairFlash (41 + i) = 0x61 := by
      intro i hi
      have hlt := List.mem_range.mp hi
      unfold pairFlash
      rw [putCrc_apart (.inl (by omega)), putCrc_apart (.inr (by omega))]
      unfold pairBytes
      rw [if_neg (by omega), if_pos (by omega)]
    unfold efPortRead
    rw [List.map_congr_left hbyte, List.map_const', List.length_range]

theorem shortEnv_at : EnvAt pairFlash 5041 shortEnv where
  status := by decide
  magic := by decide
  len := by decide
  crc := putCrc_crc
  nameLen := by decide
  valueLen := by decide
  name := by decide
  value := by decide

theorem pair_place : place Env.len (0 + sectorHdrDataSize) pairSector.envs =
    [(16, longEnv), (5041, shortEnv)] := by
  show place Env.len 16 [longEnv, shortEnv] = _
  rw [place_cons, place_cons, place_nil, longEnv_len]

theorem pair_used : pairSector.used = 5051 := by
  show total Env.len [longEnv, shortEnv] = _
  rw [total_cons, total_cons, total_nil, longEnv_len, shortEnv_len]

theorem pairSector_at : SectorAt pairFlash 0 pairSector where
  magic := by decide
  store := by decide
  dirty := by decide
  combined := by decide
  envs x hx := by
    rw [pair_place, List.mem_pair] at hx
    rcases hx with rfl | rfl
    · exact longEnv_at
    · exact shortEnv_at
  erased x h1 h2 := by
    have hused := pair_used
    have hbytes : pairSector.bytes = 8192 := rfl
    have hhdr : sectorHdrDataSize = 16 := rfl
    unfold pairFlash
    rw [putCrc_apart (.inr (by omega)), putCrc_apart (.inr (by omega))]
    unfold pairBytes
    rw [if_neg (by omega), if_neg (by omega), if_pos (by omega), List.getD_eq_default]
    show 26 ≤ x - 5041
    omega

theorem pairFlash_area : Area pairFlash (pairSector :: List.replicate 10 emptySector) where
  total := rfl
  sectors x hx := by
    rcases List.mem_cons.mp hx with rfl | hx
    · exact pairSector_at
    · obtain ⟨i, hi, rfl⟩ := place_replicate _ _ _ hx
      have hsec : sectorSize = 4096 := rfl
      have hb : pairSector.bytes = 8192 := rfl
      have hs : envStartAddr = 0 := rfl
      have hat : SectorAt (formatSectors (fun _ => 0xFF) 12) (envStartAddr + (i + 2) * sectorSize) _ :=
        formatSectors_at (by omega)
      have haddr : envStartAddr + pairSector.bytes + i * sectorSize =
          envStartAddr + (i + 2) * sectorSize := by
        rw [hb, hs, hsec]
        omega
      rw [haddr]
      rw [hsec] at hat ⊢
      refine hat.congr fun y h1 _ => ?_
      unfold pairFlash
      rw [putCrc_apart (.inr (by omega)), putCrc_apart (.inr (by omega))]
      unfold pairBytes
      rw [if_neg (by omega), if_neg (by omega), if_neg (by omega)]
      rfl

/-- The ENV behind the header of its sector. -/
theorem delEnv_metadata_iff_one :
    ∃ fl', delEnv envAreaSize oneFlash [0x61] (some (oneEnv.toMeta 16 [])) true stackSector
        .fresh = some (.noErr, fl') ∧
      (MetadataOnly (oneSector :: List.replicate 11 emptySector) oneFlash fl' 0 16 ↔
        alignDown 16 = 0 ∨ ¬ ReadsClean oneFlash 16) := by
  have hs : (0, oneSector) ∈ place Sector.bytes envStartAddr
      (oneSector :: List.replicate 11 emptySector) := List.mem_cons_self
  have he : (16, oneEnv) ∈ place Env.len (0 + sectorHdrDataSize) oneSector.envs :=
    List.mem_cons_self
  exact delEnv_metadata_iff oneFlash_area (Nat.le_refl _) hs he (.inl rfl) rfl rfl

/-- A letter of the long value is in the place of the dirty status: it is changed. -/
theorem delEnv_corrupts : ¬ ∀ (fl fl' : Memory) (l : List Sector) (p a : Nat) (s : Sector) (e : Env)
    (key : List UInt8) (m : EnvMeta) (c : Bool) (sector : SectorMeta) (env : EnvMeta),
    Area fl l → (p, s) ∈ place Sector.bytes envStartAddr l →
    (a, e) ∈ place Env.len (p + sectorHdrDataSize) s.envs → e.status.Live → m.start = a →
    delEnv envAreaSize fl key (some m) c sector env = some (.noErr, fl') →
    MetadataOnly l fl fl' p a := by
  intro h
  have hmem : (5041, shortEnv) ∈ place Env.len (0 + sectorHdrDataSize) pairSector.envs := by
    rw [pair_place]
    exact List.mem_cons_of_mem _ List.mem_cons_self
  have hmeta := h pairFlash (delStatus pairFlash 5041 true) _ 0 5041 pairSector shortEnv [0x65]
    (shortEnv.toMeta 5041 []) true stackSector .fresh pairFlash_area List.mem_cons_self hmem
    (.inl rfl) rfl rfl
  have hbyte : delStatus pairFlash 5041 true 4097 ≠ pairFlash 4097 := by decide
  exact hbyte (hmeta.bytes 4097 (by decide) (by decide))

end Tudu.Flash
