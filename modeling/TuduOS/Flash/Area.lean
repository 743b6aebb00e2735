import TuduOS.Flash.Alloc
import TuduOS.Lib.Tiling

/-!
# Valid sectors

What the flash says of its sectors: a list of sectors, each with the list of its ENVs, of which
the bytes of the flash are the image (`Area`).

* `Env`, `Sector`: the two as values. A sector has room for its ENVs; an empty one has none.
* `EnvAt`, `SectorAt`: the image of one at an address.
* `readEnv_eq`, `readSectorMetaData_eq`: what the code reads of them. Of a valid sector it changes
  nothing.
-/

namespace Tudu.Flash

open Bytes (Memory)
open Nor Tiling

structure Env where
  status : EnvStatus
  name : List UInt8
  value : List UInt8
  deriving DecidableEq

def Env.len (e : Env) : Nat := envHdrDataSize + e.name.length + e.value.length

/-- The image of an ENV. -/
structure EnvAt (fl : Memory) (a : Nat) (e : Env) : Prop where
  status : getStatus (fl a) 6 = e.status.code
  magic : envHdr.load fl .magic a = envMagicWord
  len : envHdr.load fl .len a = e.len
  crc : (efCalcCrc32 0 (efPortRead fl (a + envNameLenOffset) (e.len - envNameLenOffset))).toNat =
    envHdr.load fl .crc32 a
  nameLen : envHdr.load fl .nameLen a = e.name.length
  valueLen : envHdr.load fl .valueLen a = e.value.length
  name : efPortRead fl (a + envHdrDataSize) e.name.length = e.name
  value : efPortRead fl (a + envHdrDataSize + e.name.length) e.value.length = e.value

/-- A sector, or several combined ones. -/
structure Sector where
  store : StoreStatus
  dirty : DirtyStatus
  combined : Nat
  envs : List Env
  ready : store ≠ .unused
  combined_pos : 0 < combined
  empty_iff : store = .empty ↔ envs = []
  fits : sectorHdrDataSize + total Env.len envs ≤
    (if combined = sectorNotCombined then 1 else combined) * sectorSize

theorem sectorNotCombined_pos : 0 < sectorNotCombined := by decide

namespace Sector

/-- The sectors that are one with this sector. -/
def span (s : Sector) : Nat := if s.combined = sectorNotCombined then 1 else s.combined

def bytes (s : Sector) : Nat := s.span * sectorSize

/-- The bytes of the ENVs. -/
def used (s : Sector) : Nat := total Env.len s.envs

/-- An empty sector that is not combined. -/
def Empty (s : Sector) : Prop := s.store = .empty ∧ s.combined = sectorNotCombined

instance (s : Sector) : Decidable s.Empty := inferInstanceAs (Decidable (_ ∧ _))

/-- The space that the code sees. -/
def remain (s : Sector) : Nat :=
  match s.store with
  | .empty => s.bytes - sectorHdrDataSize
  | .inUse => s.bytes - sectorHdrDataSize - s.used
  | _ => 0

/-- The free space starts behind the ENVs. A full sector is not looked into. -/
def emptyEnv (s : Sector) (p : Nat) : Nat :=
  match s.store with
  | .inUse => p + sectorHdrDataSize + s.used
  | _ => p + sectorHdrDataSize

/-- What the code reads of a sector at `p`. -/
def toMeta (s : Sector) (p : Nat) : SectorMeta :=
  { checkOk := true, store := s.store, dirty := s.dirty, addr := p, magic := sectorMagicWord,
    combined := s.combined, remain := s.remain, emptyEnv := s.emptyEnv p }

end Sector

structure SectorAt (fl : Memory) (p : Nat) (s : Sector) : Prop where
  magic : sectorHdr.load fl .magic p = sectorMagicWord
  store : getStatus (fl p) 4 = s.store.code
  dirty : getStatus (fl (p + 1)) 4 = s.dirty.code
  combined : sectorHdr.load fl .combined p = s.combined
  envs : ∀ x ∈ place Env.len (p + sectorHdrDataSize) s.envs, EnvAt fl x.1 x.2
  erased : Erased fl (p + sectorHdrDataSize + s.used) (s.bytes - sectorHdrDataSize - s.used)

/-- The flash is the image of these sectors. -/
structure Area (fl : Memory) (l : List Sector) : Prop where
  total : total Sector.bytes l = envAreaSize
  sectors : ∀ x ∈ place Sector.bytes envStartAddr l, SectorAt fl x.1 x.2

/-- The ENVs with their addresses. -/
def envsOf (l : List Sector) : List (Nat × Env) :=
  (place Sector.bytes envStartAddr l).flatMap fun x => place Env.len (x.1 + sectorHdrDataSize) x.2.envs

/-- What the code reads of an ENV at `a`; `rest`: what is behind the name in its buffer. -/
def Env.toMeta (e : Env) (a : Nat) (rest : List UInt8) : EnvMeta :=
  { status := e.status, crcIsOk := true, nameLen := e.name.length, len := e.len,
    valueLen := e.value.length, name := e.name ++ rest, start := a,
    value := a + envHdrDataSize + e.name.length }

variable {fl fl' : Memory} {a p n : Nat} {e : Env} {s : Sector} {m : SectorMeta} {env : EnvMeta}

/-! ## Images -/

theorem efPortRead_congr {k : Nat} (h : ∀ x, a ≤ x → x < a + k → fl' x = fl x) :
    efPortRead fl' a k = efPortRead fl a k := by
  unfold efPortRead
  apply List.map_congr_left
  intro i hi
  rw [List.mem_range] at hi
  exact h _ (by omega) (by omega)

theorem Env.le_len (e : Env) : 24 ≤ e.len := by
  unfold len envHdrDataSize
  omega

/-- An image is in its own bytes. -/
theorem EnvAt.congr (h : EnvAt fl a e) (he : ∀ x, a ≤ x → x < a + e.len → fl' x = fl x) :
    EnvAt fl' a e := by
  have hlen := e.le_len
  have hsize : e.len = envHdrDataSize + e.name.length + e.value.length := rfl
  have hload : ∀ f, envHdr.load fl' f a = envHdr.load fl f a := fun f =>
    Bytes.Layout.load_congr fun x h1 h2 => he x h1 (Nat.lt_of_lt_of_le h2 (by
      change a + 24 ≤ _
      omega))
  have hoff : envNameLenOffset = 16 := rfl
  have hread : ∀ b k, a ≤ b → b + k ≤ a + e.len → efPortRead fl' b k = efPortRead fl b k :=
    fun b k h1 h2 => efPortRead_congr fun x h3 h4 => he x (by omega) (by omega)
  exact {
    status := by rw [he a (by omega) (by omega), h.status]
    magic := by rw [hload, h.magic]
    len := by rw [hload, h.len]
    crc := by rw [hload, hread _ _ (by omega) (by omega), h.crc]
    nameLen := by rw [hload, h.nameLen]
    valueLen := by rw [hload, h.valueLen]
    name := by rw [hread _ _ (by omega) (by omega), h.name]
    value := by rw [hread _ _ (by omega) (by omega), h.value] }

theorem SectorAt.congr (h : SectorAt fl p s) (he : ∀ x, p ≤ x → x < p + s.bytes → fl' x = fl x) :
    SectorAt fl' p s := by
  have hfits : sectorHdrDataSize + s.used ≤ s.bytes := s.fits
  have hhdr : sectorHdrDataSize = 16 := rfl
  have hload : ∀ f, sectorHdr.load fl' f p = sectorHdr.load fl f p := fun f =>
    Bytes.Layout.load_congr fun x h1 h2 => he x h1 (Nat.lt_of_lt_of_le h2 (by
      change p + 16 ≤ _
      omega))
  exact {
    magic := by rw [hload, h.magic]
    store := by rw [he p (by omega) (by omega), h.store]
    dirty := by rw [he (p + 1) (by omega) (by omega), h.dirty]
    combined := by rw [hload, h.combined]
    envs := fun x hx => (h.envs x hx).congr fun y h1 h2 => by
      have hb := place_bound hx
      have hused : s.used = total Env.len s.envs := rfl
      exact he y (by omega) (by omega)
    erased := h.erased.congr fun x h1 h2 => he x (by omega) (by omega) }

/-! ## Scans -/

theorem continueFfAddr_erased {start stop : Nat} (hs : start ≤ stop)
    (h : Erased fl start (stop - start)) : continueFfAddr fl start stop = start := by
  -- once a byte is erased, the address stays
  have hrest : ∀ k b, b + k = stop → start ≤ b → ffFrom fl stop k b 0xFF start = start := by
    intro k
    induction k with
    | zero => exact fun b _ _ => if_pos rfl
    | succ k ih =>
      intro b hb hsb
      have hone : fl b = 0xFF := h b hsb (by omega)
      unfold ffFrom
      rw [hone, if_neg (fun hc => hc.1 rfl)]
      exact ih (b + 1) (by omega) (by omega)
  unfold continueFfAddr
  rcases Nat.eq_zero_or_pos (stop - start) with hz | hz
  · rw [hz]
    exact (by omega : stop = start)
  · obtain ⟨k, hk⟩ : ∃ k, stop - start = k + 1 := ⟨stop - start - 1, by omega⟩
    have hone : fl start = 0xFF := h start (Nat.le_refl _) (by omega)
    rw [hk]
    unfold ffFrom
    rw [hone]
    simp only [ne_eq, and_true, ite_self]
    exact hrest k (start + 1) (by omega) (by omega)

/-- The next ENV stands where the scan starts. -/
theorem findNextEnvAddr_found {stop : Nat} (hm : Bytes.get fl (a + 4) 4 = envMagicWord)
    (ha : 4 ≤ a) (hstop : a + 4 < stop) (h32 : a < 2 ^ 31) : findNextEnvAddr fl a stop = a := by
  -- a magic word before `a + 4` would be of an ENV that starts before `a`
  have hnear : ∀ k b, a ≤ b → b < a + 4 →
      magicFrom fl a (k + 1) b = magicFrom fl a k (b + 1) := by
    intro k b h1 h2
    rw [magicFrom, if_neg]
    rintro ⟨-, hc⟩
    rw [envMagicOffset, sub32_of_le (by omega)] at hc
    omega
  obtain ⟨k, hk⟩ : ∃ k, stop - a = k + 1 + 4 := ⟨stop - a - 5, by omega⟩
  unfold findNextEnvAddr
  rw [hk, hnear _ a (Nat.le_refl _) (by omega), hnear _ (a + 1) (by omega) (by omega),
    hnear _ (a + 1 + 1) (by omega) (by omega), hnear _ (a + 1 + 1 + 1) (by omega) (by omega)]
  have he : a + 1 + 1 + 1 + 1 = a + 4 := by omega
  have hback : sub32 (a + 4) envMagicOffset = a := by
    rw [envMagicOffset, sub32_of_le (by omega)]
    omega
  rw [he, magicFrom, if_pos ⟨hm, by rw [hback]⟩, hback]

/-- On erased bytes there is no ENV. -/
theorem findNextEnvAddr_erased {stop k : Nat} (h : Erased fl a k) (hk : stop + 3 ≤ a + k) :
    findNextEnvAddr fl a stop = failedAddr := by
  have hrest : ∀ j b, a ≤ b → b + j + 3 ≤ a + k → magicFrom fl a j b = failedAddr := by
    intro j
    induction j with
    | zero => exact fun _ _ _ => rfl
    | succ j ih =>
      intro b hab hb
      have hno : Bytes.get fl b 4 ≠ envMagicWord := by
        rw [get_erased (h.mono hab (by omega))]
        decide
      rw [magicFrom, if_neg fun hc => hno hc.1]
      exact ih (b + 1) (by omega) (by omega)
  unfold findNextEnvAddr
  rcases Nat.lt_or_ge a stop with hlt | hge
  · exact hrest _ a (Nat.le_refl _) (by omega)
  · rw [Nat.sub_eq_zero_of_le hge]
    rfl

/-! ## ENVs -/

theorem readEnv_eq (h : EnvAt fl a e) (hlen : e.len ≤ envAreaSize) (ha : a < 2 ^ 31)
    (env : EnvMeta) :
    readEnv fl { env with start := a } = (e.toMeta a (env.name.drop e.name.length), fl) := by
  have hsize : envHdrDataSize + e.name.length + e.value.length = e.len := rfl
  have hwrap : add32 a envHdrDataSize = a + envHdrDataSize :=
    add32_of_lt (by unfold envHdrDataSize; omega)
  have hname : add32 (a + envHdrDataSize) e.name.length = a + envHdrDataSize + e.name.length := by
    apply add32_of_lt
    unfold envAreaSize sectorSize sectorNum at hlen
    omega
  have hbad : ¬ (e.len = 0xFFFFFFFF ∨ envAreaSize < e.len ∨ e.len < envNameLenOffset) := by
    unfold envAreaSize sectorSize sectorNum at hlen ⊢
    unfold envHdrDataSize at hsize
    unfold envNameLenOffset
    omega
  unfold readEnv
  simp only [h.len, h.crc, h.nameLen, h.valueLen, h.status, if_neg hbad, hwrap, hname, h.name,
    ne_eq, not_true_eq_false, if_false, EnvStatus.ofCode_code]
  rfl

theorem getNextEnvAddr_first (hs : m.store ≠ .empty) (hm : m.addr < 2 ^ 31)
    (he : env.start = failedAddr) : getNextEnvAddr fl m env = m.addr + sectorHdrDataSize := by
  unfold getNextEnvAddr
  rw [if_neg hs, if_pos he]
  exact add32_of_lt (by unfold sectorHdrDataSize; omega)

/-- Behind an ENV comes the next one, or the end. -/
theorem getNextEnvAddr_next {stop : Nat} {l : List Env} (hs : m.store ≠ .empty)
    (hstop : m.addr + m.bytes = stop) (h32 : stop < 2 ^ 31)
    (hin : a + e.len + total Env.len l ≤ stop) (ha : sectorHdrDataSize ≤ a)
    (hl : ∀ x ∈ place Env.len (a + e.len) l, EnvAt fl x.1 x.2)
    (herased : Erased fl (a + e.len + total Env.len l) (stop - (a + e.len + total Env.len l)))
    (rest : List UInt8) :
    getNextEnvAddr fl m (e.toMeta a rest) = if l = [] then failedAddr else a + e.len := by
  have hpos := e.le_len
  unfold sectorHdrDataSize at ha
  have h0 : a ≠ failedAddr := by unfold failedAddr; omega
  have hend : add32 m.addr m.bytes = stop := by rw [add32_of_lt (by omega), hstop]
  have hle : a ≤ stop := by omega
  have hnext : add32 a e.len = a + e.len := add32_of_lt (by omega)
  have hback : sub32 stop sectorHdrDataSize = stop - 16 := by
    unfold sectorHdrDataSize
    exact sub32_of_le (by omega)
  have hne : ¬ e.len = 0 := by omega
  unfold getNextEnvAddr
  simp only [Env.toMeta, if_neg hs, if_neg h0, hend, if_pos hle, if_true, hnext, hback]
  cases l with
  | nil =>
    rw [if_pos rfl]
    rw [total_nil, Nat.add_zero] at herased
    rw [findNextEnvAddr_erased herased (by omega), if_pos]
    left
    unfold failedAddr
    omega
  | cons e' l =>
    have he' := hl (a + e.len, e') List.mem_cons_self
    have hpos' := e'.le_len
    rw [total_cons] at hin
    rw [if_neg (List.cons_ne_nil _ _), findNextEnvAddr_found he'.magic (by omega) (by omega)
      (by omega), if_neg]
    omega

/-- The first ENV of a list is read, the others are behind it. -/
theorem first_env {e : Env} {l : List Env} {stop : Nat}
    (hl : ∀ x ∈ (a, e) :: place Env.len (a + e.len) l, EnvAt fl x.1 x.2) (hin : a + e.len ≤ stop)
    (h32 : stop ≤ envAreaSize) (env : EnvMeta) :
    (∀ x ∈ place Env.len (a + e.len) l, EnvAt fl x.1 x.2) ∧
      readEnv fl { env with start := a } = (e.toMeta a (env.name.drop e.name.length), fl) := by
  have harea : envAreaSize = 49152 := rfl
  have he : EnvAt fl a e := hl (a, e) List.mem_cons_self
  exact ⟨fun x hx => hl x (List.mem_cons_of_mem _ hx), readEnv_eq he (by omega) (by omega) env⟩

/-- The ENVs of a sector are read to the end, each once. -/
theorem countEnvs_eq {l : List Env} {stop : Nat} (hn : l.length < n) (hs : m.store ≠ .empty)
    (hstop : m.addr + m.bytes = stop) (h32 : stop ≤ envAreaSize)
    (hin : a + total Env.len l ≤ stop) (ha : sectorHdrDataSize ≤ a)
    (hl : ∀ x ∈ place Env.len a l, EnvAt fl x.1 x.2)
    (herased : Erased fl (a + total Env.len l) (stop - (a + total Env.len l)))
    (hfirst : getNextEnvAddr fl m env = if l = [] then failedAddr else a)
    (hempty : m.emptyEnv = a) (hremain : total Env.len l ≤ m.remain) :
    countEnvs n fl m env =
      some ({ m with emptyEnv := a + total Env.len l, remain := m.remain - total Env.len l }, fl) := by
  unfold envAreaSize sectorSize sectorNum at h32
  induction l generalizing n a m env with
  | nil =>
    obtain ⟨n, rfl⟩ : ∃ k, n = k + 1 := ⟨n - 1, by rw [List.length_nil] at hn; omega⟩
    unfold countEnvs
    rw [hfirst, if_pos rfl]
    simp only [if_true, total_nil, Nat.add_zero, Nat.sub_zero, ← hempty]
  | cons e l ih =>
    obtain ⟨n, rfl⟩ : ∃ k, n = k + 1 := ⟨n - 1, by rw [List.length_cons] at hn; omega⟩
    rw [total_cons] at hin hremain herased
    rw [place_cons] at hl
    rw [← Nat.add_assoc] at herased hin
    have h0 : a ≠ failedAddr := by unfold failedAddr; omega
    obtain ⟨hrest, hread⟩ := first_env hl (Nat.le_trans (Nat.le_add_right ..) hin) h32 env
    have hadd : add32 m.emptyEnv e.len = a + e.len := by
      rw [hempty]
      exact add32_of_lt (by omega)
    have hsub : sub32 m.remain e.len = m.remain - e.len := sub32_of_le (by omega)
    unfold countEnvs
    rw [hfirst, if_neg (List.cons_ne_nil _ _)]
    simp only [if_neg h0, hread, Env.toMeta, Bool.true_eq_false, false_and, if_false, hadd, hsub]
    have hgo := ih (n := n) (m := { m with emptyEnv := a + e.len, remain := m.remain - e.len })
      (a := a + e.len) (by rw [List.length_cons] at hn; omega) hs hstop hin
      (by omega) hrest herased
      (getNextEnvAddr_next hs hstop (by omega) hin ha hrest herased
        (env.name.drop e.name.length)) rfl (by simp only; omega)
    rw [Env.toMeta] at hgo
    rw [hgo, total_cons]
    simp only [Nat.add_assoc, Nat.sub_sub]

/-! ## Sectors -/

namespace Sector

theorem used_le (s : Sector) : sectorHdrDataSize + s.used ≤ s.bytes := s.fits

theorem bytes_single (hc : s.combined = sectorNotCombined) : s.bytes = 4096 := by
  unfold bytes span
  rw [if_pos hc, Nat.one_mul]
  rfl

theorem bytes_pos (s : Sector) : 4096 ≤ s.bytes := by
  have hpos := s.combined_pos
  unfold bytes span
  split
  · exact Nat.le_of_eq (Nat.one_mul _).symm
  · exact Nat.le_mul_of_pos_left _ hpos

/-- An ENV takes at least its header. -/
theorem length_envs_le (s : Sector) : 24 * s.envs.length ≤ s.used := by
  have h : ∀ l : List Env, 24 * l.length ≤ total Env.len l := by
    intro l
    induction l with
    | nil => exact Nat.le_refl _
    | cons e l ih =>
      have he := e.le_len
      rw [total_cons, List.length_cons]
      omega
  exact h s.envs

end Sector

theorem SectorMeta.bytes_eq (hc : m.combined = s.combined) (hs : s.bytes ≤ envAreaSize) :
    m.bytes = s.bytes := by
  unfold bytes Sector.bytes Sector.span at *
  rw [hc]
  split
  · exact (Nat.one_mul _).symm
  · next hne =>
    rw [if_neg hne] at hs
    unfold envAreaSize sectorSize sectorNum at hs
    unfold mul32 sectorSize
    omega

theorem readSectorMetaData_false (h : SectorAt fl p s) (hp : sectorSize ∣ p) (m : SectorMeta) :
    readSectorMetaData n fl p m false =
      some ({ s.toMeta p with remain := m.remain, emptyEnv := m.emptyEnv }, fl) := by
  unfold readSectorMetaData
  rw [if_neg (not_not.mpr (Nat.mod_eq_zero_of_dvd hp))]
  simp only [h.magic, h.combined, h.store, h.dirty, ne_eq, not_true_eq_false, if_false, if_true,
    StoreStatus.ofCode_code, DirtyStatus.ofCode_code]
  rfl

/-- What is left of a sector in use. -/
theorem countSector_eq (h : SectorAt fl p s) (hin : p + s.bytes ≤ envAreaSize)
    (hn : envAreaSize ≤ n + sectorSize) (hu : s.store = .inUse) (hs : m.store = .inUse)
    (hm : m.addr = p) (hc : m.combined = s.combined) (he : m.emptyEnv = p + sectorHdrDataSize)
    (hr : m.remain = s.bytes - sectorHdrDataSize) :
    (countEnvs n fl m .fresh).map (fun r => (checkClean r.2 r.1, r.2)) =
      some ({ m with
        emptyEnv := p + sectorHdrDataSize + s.used
        remain := s.bytes - sectorHdrDataSize - s.used }, fl) := by
  have hfits := s.used_le
  have hlen := s.length_envs_le
  have harea : envAreaSize = 49152 := rfl
  have hhdr : sectorHdrDataSize = 16 := rfl
  have hsize : sectorSize = 4096 := rfl
  have hused : s.used = total Env.len s.envs := rfl
  have hne : s.envs ≠ [] := by
    rw [ne_eq, ← s.empty_iff, hu]
    exact StoreStatus.noConfusion
  have hnotEmpty : m.store ≠ .empty := by
    rw [hs]
    exact StoreStatus.noConfusion
  have hbytes : m.bytes = s.bytes := SectorMeta.bytes_eq hc (by omega)
  have hstop : m.addr + m.bytes = p + s.bytes := by rw [hm, hbytes]
  have herased : Erased fl (p + sectorHdrDataSize + s.used)
      (p + s.bytes - (p + sectorHdrDataSize + s.used)) := h.erased.mono (by omega) (by omega)
  have hfirst : getNextEnvAddr fl m .fresh =
      if s.envs = [] then failedAddr else p + sectorHdrDataSize := by
    rw [if_neg hne, getNextEnvAddr_first hnotEmpty (by omega) rfl, hm]
  rw [countEnvs_eq (by omega) hnotEmpty hstop hin (by omega) (by omega) h.envs herased hfirst he
    (by omega), ← hused, hr, Option.map_some]
  have hend : add32 m.addr m.bytes = p + s.bytes := by rw [add32_of_lt (by omega), hstop]
  unfold checkClean
  simp only [SectorMeta.bytes] at hend ⊢
  rw [hend, continueFfAddr_erased (by omega) herased, if_neg (not_not.mpr rfl)]

/-- Of a valid sector the code reads what there is. -/
theorem readSectorMetaData_true (h : SectorAt fl p s) (hp : sectorSize ∣ p)
    (hin : p + s.bytes ≤ envAreaSize) (hn : envAreaSize ≤ n + sectorSize) (m : SectorMeta) :
    readSectorMetaData n fl p m true = some (s.toMeta p, fl) := by
  have hfits := s.used_le
  have harea : envAreaSize = 49152 := rfl
  have hhdr : sectorHdrDataSize = 16 := rfl
  have hfirst : add32 p sectorHdrDataSize = p + sectorHdrDataSize := add32_of_lt (by omega)
  have hroom : sub32 s.bytes sectorHdrDataSize = s.bytes - sectorHdrDataSize :=
    sub32_of_le (by omega)
  unfold readSectorMetaData
  rw [if_neg (not_not.mpr (Nat.mod_eq_zero_of_dvd hp))]
  simp only [h.magic, h.combined, h.store, h.dirty, ne_eq, not_true_eq_false, if_false,
    Bool.true_eq_false, StoreStatus.ofCode_code, DirtyStatus.ofCode_code, hfirst]
  rw [SectorMeta.bytes_eq (s := s) rfl (by omega), hroom]
  unfold Sector.toMeta Sector.remain Sector.emptyEnv
  cases hs : s.store with
  | unused => rfl
  | empty => rfl
  | full => rfl
  | inUse => exact countSector_eq h hin hn hs rfl rfl rfl rfl rfl

/-! ## One sector after the other -/

/-- The flash from `o` to the end of the area is the image of these sectors. -/
structure From (fl : Memory) (o : Nat) (l : List Sector) : Prop where
  total : o + total Sector.bytes l = envAreaSize
  aligned : sectorSize ∣ o
  sectors : ∀ x ∈ place Sector.bytes o l, SectorAt fl x.1 x.2

/-- The next sector is at `o`, if the area does not end there. -/
def Behind (m : SectorMeta) (o : Nat) : Prop :=
  getNextSectorAddr m = if o < envAreaSize then o else failedAddr

variable {o : Nat} {l : List Sector} {ef : Ef}

theorem Area.start (h : Area fl l) : From fl envStartAddr l :=
  ⟨(Nat.zero_add _).trans h.total, Nat.dvd_zero _, h.sectors⟩

theorem From.tail (h : From fl o (s :: l)) : From fl (o + s.bytes) l where
  total := by
    have ht := h.total
    rw [total_cons] at ht
    omega
  aligned := Nat.dvd_add h.aligned (Nat.dvd_mul_left _ _)
  sectors x hx := h.sectors x (List.mem_cons_of_mem _ hx)

theorem From.head (h : From fl o (s :: l)) : SectorAt fl o s :=
  h.sectors (o, s) List.mem_cons_self

theorem From.bound (h : From fl o (s :: l)) : o + s.bytes ≤ envAreaSize := by
  have ht := h.total
  rw [total_cons] at ht
  omega

/-- One of the sectors. -/
theorem From.mid {pre post : List Sector} (h : From fl o (pre ++ s :: post)) :
    From fl (o + Tiling.total Sector.bytes pre) (s :: post) := by
  induction pre generalizing o with
  | nil =>
    rw [total_nil, Nat.add_zero]
    exact h
  | cons t pre ih =>
    rw [total_cons, ← Nat.add_assoc]
    exact ih h.tail

/-- There are at most twelve sectors. -/
theorem From.length_le (h : From fl o l) : o + l.length * 4096 ≤ envAreaSize := by
  induction l generalizing o with
  | nil =>
    have ht := h.total
    rw [total_nil] at ht
    simpa using Nat.le_of_eq ht
  | cons s l ih =>
    have hrest := ih h.tail
    have hpos := s.bytes_pos
    rw [List.length_cons]
    omega

theorem behind_start (hm : m.addr = failedAddr) : Behind m envStartAddr := if_pos hm

theorem behind_sector (hm : m.addr = p) (hc : m.combined = s.combined)
    (hin : p + s.bytes ≤ envAreaSize) : Behind m (p + s.bytes) := by
  have harea : envAreaSize = 49152 := rfl
  have hp : p ≠ failedAddr := by
    unfold failedAddr
    omega
  unfold Behind getNextSectorAddr
  rw [hm, if_neg hp, SectorMeta.bytes_eq hc (by omega), add32_of_lt (by omega)]
  simp only [envStartAddr, Nat.zero_add]

theorem Behind.none (h : Behind m o) (hl : From fl o []) : getNextSectorAddr m = failedAddr := by
  have ht := hl.total
  rw [total_nil, Nat.add_zero] at ht
  rw [h, if_neg (by omega)]

theorem Behind.some (h : Behind m o) (hl : From fl o (s :: l)) :
    getNextSectorAddr m = o ∧ o ≠ failedAddr := by
  have hb := hl.bound
  have hpos := s.bytes_pos
  have harea : envAreaSize = 49152 := rfl
  have hsize : sectorSize = 4096 := rfl
  have hfail : failedAddr = 0xFFFFFFFF := rfl
  rw [h, if_pos (by omega)]
  exact ⟨rfl, by omega⟩

section Iterator

variable {σ : Type} {status : StoreStatus}
  {callback : SectorMeta → Ef → σ → Option (Bool × Ef × σ)} {traversalEnv : Bool}

/-- What the iterator passes to the callback. -/
def seenMeta (traversalEnv : Bool) (m : SectorMeta) (x : Nat × Sector) : SectorMeta :=
  if traversalEnv then x.2.toMeta x.1
  else { x.2.toMeta x.1 with remain := m.remain, emptyEnv := m.emptyEnv }

theorem sectorsFrom_nil (hm : Behind m o) (hl : From ef.flash o []) (v : σ) :
    sectorsFrom status callback traversalEnv (n + 1) m ef v = some (m, ef, v) := by
  unfold sectorsFrom
  rw [hm.none hl]
  exact if_pos rfl

theorem behind_seenMeta {b : Bool} (hin : p + s.bytes ≤ envAreaSize) :
    Behind (seenMeta b m (p, s)) (p + s.bytes) := by
  cases b <;> exact behind_sector rfl rfl hin

/-- One sector of the iterator. -/
theorem sectorsFrom_cons (hm : Behind m o) (hl : From ef.flash o (s :: l))
    (hn : envAreaSize ≤ n + sectorSize) (v : σ) : sectorsFrom status callback traversalEnv (n + 1) m ef v =
      if status = .unused ∨ status = s.store then
        (callback (seenMeta traversalEnv m (o, s)) ef v).bind fun c =>
          if c.1 then some (seenMeta traversalEnv m (o, s), c.2.1, c.2.2)
          else sectorsFrom status callback traversalEnv n (seenMeta traversalEnv m (o, s)) c.2.1 c.2.2
      else sectorsFrom status callback traversalEnv n (seenMeta false m (o, s)) ef v := by
  obtain ⟨hnext, hne⟩ := hm.some hl
  have hread := fun m => readSectorMetaData_true (n := n) hl.head hl.aligned hl.bound hn m
  conv_lhs => unfold sectorsFrom
  simp only [hnext, if_neg hne, readSectorMetaData_false hl.head hl.aligned, Option.bind_eq_bind,
    Option.bind_some]
  cases traversalEnv with
  | true =>
    simp only [if_true, hread, Option.bind_some]
    rfl
  | false => rfl

/-- A callback that reads and goes on or stops: the iterator comes to an end, and changes nothing. -/
theorem sectorsFrom_pure {v : σ} (hcb : ∀ m v, ∃ b w, callback m ef v = some (b, ef, w))
    (hm : Behind m o) (hl : From ef.flash o l) (hn : envAreaSize + l.length < n + sectorSize) :
    ∃ m' w, sectorsFrom status callback traversalEnv n m ef v = some (m', ef, w) := by
  have hsize : sectorSize = 4096 := rfl
  have harea : envAreaSize = 49152 := rfl
  obtain ⟨n, rfl⟩ : ∃ k, n = k + 1 := ⟨n - 1, by omega⟩
  induction l generalizing n m o v with
  | nil => exact ⟨m, v, sectorsFrom_nil hm hl v⟩
  | cons s l ih =>
    rw [List.length_cons] at hn
    obtain ⟨n, rfl⟩ : ∃ k, n = k + 1 := ⟨n - 1, by omega⟩
    have hgo : ∀ b v, ∃ m'' w, sectorsFrom status callback traversalEnv (n + 1) (seenMeta b m (o, s))
        ef v = some (m'', ef, w) := fun b v => ih (behind_seenMeta hl.bound) hl.tail n (by omega)
    rw [sectorsFrom_cons hm hl (by omega)]
    split
    · obtain ⟨b, w, hb⟩ := hcb (seenMeta traversalEnv m (o, s)) v
      rw [hb, Option.bind_some]
      cases b
      · exact hgo _ w
      · exact ⟨_, _, rfl⟩
    · exact hgo _ v

theorem sectorIterator_pure (hcb : ∀ m v, ∃ b w, callback m ef v = some (b, ef, w)) (hl : Area ef.flash l)
    (hn : envAreaSize ≤ n) (status : StoreStatus) (traversalEnv : Bool) (m : SectorMeta) (v : σ) :
    ∃ m' w, sectorIterator n status callback traversalEnv m ef v = some (m', ef, w) := by
  have hlen := hl.start.length_le
  have hsize : sectorSize = 4096 := rfl
  have harea : envAreaSize = 49152 := rfl
  exact sectorsFrom_pure hcb (behind_start rfl) hl.start (by omega)

end Iterator

theorem sectorWander_eq (hm : Behind m o) (hl : From fl o l)
    (hn : envAreaSize + l.length < n + sectorSize) : sectorWander n fl m = some fl := by
  have hsize : sectorSize = 4096 := rfl
  have harea : envAreaSize = 49152 := rfl
  induction l generalizing n m o with
  | nil =>
    obtain ⟨n, rfl⟩ : ∃ k, n = k + 1 := ⟨n - 1, by omega⟩
    unfold sectorWander
    rw [hm.none hl]
    exact if_pos rfl
  | cons s l ih =>
    rw [List.length_cons] at hn
    obtain ⟨n, rfl⟩ : ∃ k, n = k + 1 := ⟨n - 1, by omega⟩
    obtain ⟨hnext, hne⟩ := hm.some hl
    have hread := readSectorMetaData_true (n := n) hl.head hl.aligned hl.bound (by omega) m
    unfold sectorWander
    simp only [hnext, if_neg hne, hread, Option.bind_eq_bind, Option.bind_some]
    exact ih (behind_sector rfl rfl hl.bound) hl.tail (by omega)

end Tudu.Flash
