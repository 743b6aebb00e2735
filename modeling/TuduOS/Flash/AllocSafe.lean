import TuduOS.Flash.Contsector
import TuduOS.Flash.Format

/-!
# Combined sectors are safe space

When the address that `alloc_env` gets from `contsector_wander_find` can be written to (`Safe`).

The sectors that are combined and erased are empty, and the sector in front of them keeps its ENVs.
The ENV does not fit into them if it ends in the last 16 bytes of a sector, for the row counts its
first header only once. An ENV of a whole number of sectors leaves no bytes for the sector in front,
and then `remain >= 0` holds of a full sector too (`Fits`).

* `allocCombine_place`: where the ENV is put, and what becomes of the flash.
* `allocEnv_safe_iff`: the address is safe if and only if the ENV fits.
-/

namespace Tudu.Flash

open Bytes (Memory)
open Nor Tiling FirstRun

/-- An ENV that a garbage collection moves. -/
def EnvStatus.Live (s : EnvStatus) : Prop := s = .write ∨ s = .preDelete

/-- The bytes of the sectors that are combined with the one at `p`. -/
def coveredBytes (fl : Memory) (p : Nat) : Nat := sectorHdr.load fl .combined p * sectorSize

/-- Of the flash `fl` of the sectors `l`, the call has made `fl'`: the `envSize` bytes at `a` are
free. -/
structure Safe (l : List Sector) (fl fl' : Memory) (a envSize : Nat) : Prop where
  /-- The combined sectors are sectors of the area. -/
  area : alignDown a + coveredBytes fl' (alignDown a) ≤ envStartAddr + envAreaSize
  /-- The bytes are in them. -/
  inside : a + envSize ≤ alignDown a + coveredBytes fl' (alignDown a)
  /-- No live ENV is erased. -/
  kept : ∀ x ∈ envsOf l, x.2.status.Live → ∀ y ∈ span x.1 x.2.len, fl' y = fl y
  /-- No ENV is in the bytes. -/
  apart : ∀ x ∈ envsOf l, Disjoint (span a envSize) (span x.1 x.2.len)
  /-- The bytes are in no header, but those of the sectors that the combined one takes in. -/
  headers : ∀ x ∈ place Sector.bytes envStartAddr l,
    ¬ (alignDown a < x.1 ∧ x.1 < alignDown a + coveredBytes fl' (alignDown a)) →
    Disjoint (span a envSize) (span x.1 sectorHdrDataSize)

/-- The combined sectors have room for the ENV. -/
structure Fits (l : List Sector) (envSize : Nat) : Prop where
  size : envSize ≤ envAreaSize
  /-- The ENV ends before the last 16 bytes of a sector. -/
  header : envSize % sectorSize + sectorHdrDataSize ≤ sectorSize
  front : envSize % sectorSize = 0 → Front envSize l
  /-- The area is not empty, or the ENV does not need all of it. -/
  room : envSize + sectorHdrDataSize = envAreaSize → ∃ s ∈ l, ¬ s.Empty

/-- The flash with `k` sectors behind the one at `p` combined with it. -/
def combineAt (fl : Memory) (p k : Nat) : Memory :=
  program (eraseBehind p k fl) (p + sectorHdr.off .combined) 4 (word (k + 1))

variable {fl : Memory} {p n k envSize a x : Nat} {l pre run post : List Sector} {g : Sector}
  {m m' : SectorMeta} {ef ef' : Ef}

theorem eraseBehind_apart (h32 : p + (k + 1) * 4096 ≤ 2 ^ 31)
    (hx : x < p + 4096 ∨ p + (k + 1) * 4096 ≤ x) : eraseBehind p k fl x = fl x := by
  induction k with
  | zero => rfl
  | succ k ih =>
    have hmul : mul32 (k + 1) sectorSize = (k + 1) * 4096 := Nat.mod_eq_of_lt (by
      change (k + 1) * 4096 < _
      omega)
    have hsize : sectorSize = 4096 := rfl
    have hsucc : (k + 1 + 1) * 4096 = (k + 1) * 4096 + 4096 := Nat.succ_mul _ _
    rw [hsucc] at h32 hx
    have hstep : p + (k + 1) * 4096 ≤ p + ((k + 1) * 4096 + 4096) :=
      Nat.add_le_add_left (Nat.le_add_right _ _) p
    have hrest := ih (Nat.le_trans hstep h32) (hx.imp_right (Nat.le_trans hstep))
    have hout : x < p + (k + 1) * 4096 ∨ p + (k + 1) * 4096 + sectorSize ≤ x := by omega
    unfold eraseBehind
    rw [hmul, add32_of_lt (by omega), erase_apart hout, hrest]

theorem combineAt_apart (h32 : p + (k + 1) * 4096 ≤ 2 ^ 31)
    (hx : x < p + 8 ∨ (p + 12 ≤ x ∧ x < p + 4096) ∨ p + (k + 1) * 4096 ≤ x) :
    combineAt fl p k x = fl x := by
  have hoff : sectorHdr.off .combined = 8 := rfl
  unfold combineAt
  rw [program_apart (by omega), eraseBehind_apart h32 (by omega)]

/-- The combined field of a single sector is written for the first time. -/
theorem coveredBytes_combineAt (hg : SectorAt fl p g) (hc : g.combined = sectorNotCombined)
    (h32 : p + (k + 1) * 4096 ≤ 2 ^ 31) : coveredBytes (combineAt fl p k) p = (k + 1) * 4096 := by
  have hold : Bytes.get fl (p + sectorHdr.off .combined) 4 = 256 ^ 4 - 1 :=
    hg.combined.trans hc
  have herased : Erased (eraseBehind p k fl) (p + sectorHdr.off .combined) 4 := by
    refine (erased_of_get hold).congr fun x h1 h2 => eraseBehind_apart h32 (.inl ?_)
    have hoff : sectorHdr.off .combined = 8 := rfl
    omega
  have hnew : sectorHdr.load (combineAt fl p k) .combined p = (k + 1) % 256 ^ 4 :=
    get_program herased
  unfold coveredBytes
  rw [hnew, Nat.mod_eq_of_lt (by omega)]
  rfl

/-! ## The place of the ENV -/

theorem total_aligned (l : List Sector) : 4096 ∣ total Sector.bytes l := by
  induction l with
  | nil => exact Nat.dvd_zero _
  | cons s l ih => exact total_cons s l ▸ Nat.dvd_add (Nat.dvd_mul_left _ _) ih

theorem alignDown_add (hp : 4096 ∣ p) (hx : x < 4096) : alignDown (p + x) = p := by
  have hsec : sectorSize = 4096 := rfl
  unfold alignDown
  rw [hsec]
  omega

/-- The space that the code sees in a single sector that is not empty. -/
theorem Sector.single_cases (hc : g.combined = sectorNotCombined) (hg : ¬ g.Empty) (p : Nat) :
    g.bytes = 4096 ∧ g.envs ≠ [] ∧
      ((g.store = .inUse ∧ g.emptyEnv p + g.remain = p + 4096 ∧ g.remain + 16 + g.used = 4096) ∨
        (g.store = .full ∧ g.emptyEnv p = p + sectorHdrDataSize ∧ g.remain = 0)) := by
  have hbytes : g.bytes = 4096 := Sector.bytes_single hc
  have hfits := g.used_le
  have hhdr : sectorHdrDataSize = 16 := rfl
  have hnone : g.store ≠ .empty := fun he => hg ⟨he, hc⟩
  refine ⟨hbytes, fun he => hnone (g.empty_iff.mpr he), ?_⟩
  unfold Sector.emptyEnv Sector.remain
  cases hs : g.store with
  | unused => exact absurd hs g.ready
  | empty => exact absurd hs hnone
  | full => exact .inr ⟨rfl, rfl, rfl⟩
  | inUse => exact .inl ⟨rfl, by simp only; omega, by simp only; omega⟩

/-- The ENV starts in a single sector, with the ones that are combined with it in the area. -/
theorem Place.head (h : Place envSize l a) (hl : Area fl l) (ha : a < envAreaSize) :
    ∃ g, SectorAt fl (alignDown a) g ∧ g.combined = sectorNotCombined ∧
      sectorSize ∣ alignDown a ∧ alignDown a + g.bytes ≤ envAreaSize ∧
      alignDown a + (envSize / sectorSize + 1) * 4096 ≤ envAreaSize := by
  have hhdr : sectorHdrDataSize = 16 := rfl
  have hsec : sectorSize = 4096 := rfl
  have harea : envAreaSize = 49152 := rfl
  -- the first sector of a row, and the room behind it
  have hrow : ∀ pre run post : List Sector, l = pre ++ run ++ post → (∀ s ∈ run, s.Empty) →
      envSize / sectorSize + 1 ≤ run.length →
      ∃ g, SectorAt fl (total Sector.bytes pre) g ∧ g.combined = sectorNotCombined ∧
        sectorSize ∣ total Sector.bytes pre ∧ total Sector.bytes pre + g.bytes ≤ envAreaSize ∧
        total Sector.bytes pre + (envSize / sectorSize + 1) * 4096 ≤ envAreaSize := by
    intro pre run post hsplit hall hlen
    obtain ⟨g, rest, rfl⟩ : ∃ g rest, run = g :: rest :=
      List.exists_cons_of_length_pos (Nat.lt_of_lt_of_le (Nat.succ_pos _) hlen)
    have hfrom : From fl (total Sector.bytes pre) (g :: (rest ++ post)) := by
      have hsplit' : l = pre ++ g :: (rest ++ post) := by rw [hsplit]; simp
      have h := From.mid (hsplit' ▸ hl.start)
      rwa [envStartAddr, Nat.zero_add] at h
    have htotal := hl.total
    rw [hsplit, total_append, total_append, total_empty hall] at htotal
    refine ⟨g, hfrom.head, (hall g List.mem_cons_self).2, hfrom.aligned, hfrom.bound, ?_⟩
    refine Nat.le_trans (Nat.add_le_add_left (Nat.mul_le_mul_right 4096 hlen) _) ?_
    omega
  cases h with
  | row pre run post hsplit hall hlen hf hr =>
    obtain ⟨g, hg, hc, hd, hb, hin⟩ := hrow pre run post hsplit hall hlen
    rw [alignDown_add (total_aligned pre) (by omega)]
    exact ⟨g, hg, hc, hd, hb, hin⟩
  | nowhere hall hsz => exact absurd ha (by decide)
  | front pre run post g hsplit hall hlen hc hfull hfits hr =>
    have hfrom : From fl (total Sector.bytes pre) (g :: (run ++ post)) := by
      have hsplit' : l = pre ++ g :: (run ++ post) := by rw [hsplit]; simp
      have h := From.mid (hsplit' ▸ hl.start)
      rwa [envStartAddr, Nat.zero_add] at h
    have hd := total_aligned pre
    have htotal := hl.total
    rw [hsplit, total_append, total_append, total_append, total_cons, total_nil,
      total_empty hall, hlen] at htotal
    obtain ⟨hbytes, -, hcase⟩ := Sector.single_cases hc hfull (total Sector.bytes pre)
    by_cases hend : g.emptyEnv (total Sector.bytes pre) = total Sector.bytes pre + 4096
    · -- no space is left in front: the row alone
      have hdown : alignDown (g.emptyEnv (total Sector.bytes pre)) =
          total Sector.bytes (pre ++ [g]) := by
        rw [hend, ← hbytes, ← Nat.add_zero (_ + g.bytes),
          alignDown_add (Nat.dvd_add hd (by omega)) (by omega), total_append, total_cons, total_nil,
          Nat.add_zero]
      rw [hdown]
      exact hrow (pre ++ [g]) run post hsplit hall (Nat.le_of_eq hlen.symm)
    · have hdown : alignDown (g.emptyEnv (total Sector.bytes pre)) = total Sector.bytes pre := by
        unfold alignDown
        rw [hsec]
        omega
      rw [hdown]
      exact ⟨g, hfrom.head, hc, hfrom.aligned, hfrom.bound, by omega⟩

theorem allocCombine_place (hl : Area ef.flash l) (hn : envAreaSize ≤ n)
    (hsize : envSize ≤ envAreaSize) (hmin : sectorSize - sectorHdrDataSize < envSize)
    (h : allocCombine n m ef envSize = some (a, m', ef')) (ha : a ≠ failedAddr) :
    Place envSize l a ∧ (a < envAreaSize →
      ef'.flash = combineAt ef.flash (alignDown a) (envSize / sectorSize)) := by
  have hlen := hl.start.length_le
  have hsec : sectorSize = 4096 := rfl
  have harea : envAreaSize = 49152 := rfl
  obtain ⟨b, m1, hfind, hplace⟩ := contsectorWanderFind_place (n := n)
    (m := { m with addr := failedAddr }) hsize hmin hl.start rfl (by omega)
  have hwander : sectorWander n ef.flash { m with addr := failedAddr } = some ef.flash :=
    sectorWander_eq (behind_start rfl) hl.start (by omega)
  unfold allocCombine at h
  simp only [hwander, hfind, Option.bind_eq_bind, Option.bind_some, Nat.add_sub_cancel] at h
  by_cases hb : b = failedAddr
  · rw [if_pos hb] at h
    cases h
    exact absurd rfl ha
  · rw [if_neg hb, Option.bind_eq_some_iff] at h
    obtain ⟨r, hread, h⟩ := h
    cases h
    have hp := hplace.resolve_left hb
    refine ⟨hp, fun hin => ?_⟩
    -- the sector at the start is read again: none of its bytes has changed
    obtain ⟨g, hg, hc, hd, hbound, hroom⟩ := hp.head hl hin
    have hbytes : g.bytes = 4096 := Sector.bytes_single hc
    have hsame : SectorAt (eraseBehind (alignDown a) (envSize / sectorSize) ef.flash) (alignDown a)
        g := hg.congr fun x h1 h2 => eraseBehind_apart (by omega) (.inl (by omega))
    rw [readSectorMetaData_true hsame hd hbound (by omega)] at hread
    cases hread
    rfl

/-! ## The ENVs around the place -/

theorem envs_bound {o : Nat} {y : Nat × Env}
    (h : y ∈ (place Sector.bytes o l).flatMap fun x => place Env.len (x.1 + sectorHdrDataSize) x.2.envs) :
    o + sectorHdrDataSize ≤ y.1 ∧ y.1 + y.2.len ≤ o + total Sector.bytes l := by
  obtain ⟨x, hx, hy⟩ := List.mem_flatMap.mp h
  have hsector := place_bound hx
  have henv := place_bound hy
  have hfits := x.2.used_le
  have hused : x.2.used = total Env.len x.2.envs := rfl
  omega

/-- A row of empty sectors: the ENVs are in front of it or behind it. -/
theorem envsOf_row {y : Nat × Env} (hall : ∀ s ∈ run, s.Empty) (h : y ∈ envsOf (pre ++ run ++ post)) :
    (y ∈ envsOf pre ∧ y.1 + y.2.len ≤ total Sector.bytes pre) ∨
      total Sector.bytes pre + run.length * 4096 ≤ y.1 := by
  unfold envsOf at h ⊢
  rw [place_append, place_append, List.flatMap_append, List.flatMap_append, List.mem_append,
    List.mem_append] at h
  rcases h with (h | h) | h
  · have hb := envs_bound h
    rw [envStartAddr] at hb
    exact .inl ⟨h, by omega⟩
  · obtain ⟨x, hx, hy⟩ := List.mem_flatMap.mp h
    have he := (hall x.2 (mem_of_mem_place hx)).1
    rw [x.2.empty_iff.mp he] at hy
    exact absurd hy List.not_mem_nil
  · have hb := envs_bound h
    rw [total_append, total_empty hall, envStartAddr] at hb
    exact .inr (by omega)

/-- The ENVs in front of the free space of a sector. -/
theorem envsOf_front {y : Nat × Env} (h : y ∈ envsOf (pre ++ [g])) :
    y.1 + y.2.len ≤ total Sector.bytes pre ∨
      (total Sector.bytes pre + sectorHdrDataSize ≤ y.1 ∧
        y.1 + y.2.len ≤ total Sector.bytes pre + sectorHdrDataSize + g.used) := by
  unfold envsOf at h
  rw [place_append, List.flatMap_append, List.mem_append] at h
  rcases h with h | h
  · have hb := envs_bound h
    rw [envStartAddr] at hb
    exact .inl (by omega)
  · rw [place_cons, place_nil, List.flatMap_cons, List.flatMap_nil, List.append_nil, envStartAddr,
      Nat.zero_add] at h
    exact .inr (place_bound h)

/-- Space at the end of a single sector and in the row behind it, free of ENVs, is safe. -/
theorem safe_of_apart (hg : SectorAt fl p g) (hc : g.combined = sectorNotCombined)
    (hp : alignDown a = p) (hin : p + (k + 1) * 4096 ≤ envAreaSize) (hstart : p + 16 ≤ a)
    (hend : a + envSize ≤ p + (k + 1) * 4096)
    (henvs : ∀ y ∈ envsOf l, y.1 + y.2.len ≤ p ∨ (p + 16 ≤ y.1 ∧ y.1 + y.2.len ≤ a ∧
      y.1 + y.2.len ≤ p + 4096) ∨ p + (k + 1) * 4096 ≤ y.1) :
    Safe l fl (combineAt fl p k) a envSize := by
  have harea : envAreaSize = 49152 := rfl
  have hcov : coveredBytes (combineAt fl p k) p = (k + 1) * 4096 :=
    coveredBytes_combineAt hg hc (by omega)
  refine ⟨?_, ?_, ?_, ?_, ?_⟩
  · rwa [hp, hcov, envStartAddr, Nat.zero_add]
  · rwa [hp, hcov]
  · intro y hy _ x hx
    have hxy : y.1 ≤ x ∧ x < y.1 + y.2.len := hx
    have h := henvs y hy
    exact combineAt_apart (by omega) (by omega)
  · intro y hy
    have h := henvs y hy
    rw [span_disjoint]
    omega
  · intro y _ hout
    rw [hp, hcov] at hout
    have hhdr : sectorHdrDataSize = 16 := rfl
    rw [span_disjoint]
    omega

/-! ## The search before -/

theorem sectorStatisticsCb_pure (m : SectorMeta) (v : Nat × Nat) :
    ∃ b w, sectorStatisticsCb m ef v = some (b, ef, w) := by
  unfold sectorStatisticsCb
  split
  · exact ⟨_, _, rfl⟩
  · split <;> exact ⟨_, _, rfl⟩

theorem allocEnvCb_pure (m : SectorMeta) (v : Nat) :
    ∃ b w, allocEnvCb envSize m ef v = some (b, ef, w) := by
  unfold allocEnvCb
  split <;> exact ⟨_, _, rfl⟩

/-- The search for one sector comes to an end, and changes nothing on the flash. -/
theorem allocSearch_eq (hl : Area ef.flash l) (hn : envAreaSize ≤ n) (m : SectorMeta)
    (envSize : Nat) : ∃ q, allocSearch n m ef envSize = some q ∧ q.ef.flash = ef.flash := by
  obtain ⟨m1, ⟨e, u⟩, h1⟩ := sectorIterator_pure sectorStatisticsCb_pure hl hn .unused false m
    ((0, 0) : Nat × Nat)
  have hfind : ∀ status m1, ∃ m2 b,
      sectorIterator n status (allocEnvCb envSize) true m1 ef failedAddr = some (m2, ef, b) :=
    fun status m1 => sectorIterator_pure allocEnvCb_pure hl hn status true m1 failedAddr
  have htail : ∀ m2 b, ∃ q : Search, (if 0 < e ∧ b = failedAddr then
        if efGcEmptySecThreshold < e ∨ ef.gcRequest = true then
          (sectorIterator n .empty (allocEnvCb envSize) true m2 ef failedAddr).bind fun r =>
            some { sector := r.1, ef := r.2.1, emptySector := e, emptyEnv := r.2.2 }
        else some { sector := m2, ef := { ef with gcRequest := true }, emptySector := e,
                    emptyEnv := b }
      else some { sector := m2, ef := ef, emptySector := e, emptyEnv := b }) = some q ∧
      q.ef.flash = ef.flash := by
    intro m2 b
    split
    · split
      · obtain ⟨m3, c, h3⟩ := hfind .empty m2
        rw [h3]
        exact ⟨_, rfl, rfl⟩
      · exact ⟨_, rfl, rfl⟩
    · exact ⟨_, rfl, rfl⟩
  unfold allocSearch
  simp only [h1, Option.bind_eq_bind, Option.bind_some]
  by_cases hu : 0 < u
  · obtain ⟨m2, b, h2⟩ := hfind .inUse m1
    rw [if_pos hu, h2]
    exact htail m2 b
  · rw [if_neg hu]
    simpa only [eq_self_iff_true] using htail m1 failedAddr

/-! ## Safe space -/

/-- A row of empty sectors: its first header is the only one before the ENV. -/
theorem safe_row (hl : Area fl (pre ++ run ++ post)) (hall : ∀ s ∈ run, s.Empty)
    (hlen : envSize / sectorSize + 1 ≤ run.length)
    (hhead : envSize % sectorSize + sectorHdrDataSize ≤ sectorSize)
    (hp : Place envSize (pre ++ run ++ post) (total Sector.bytes pre + sectorHdrDataSize)) :
    Safe (pre ++ run ++ post) fl
      (combineAt fl (alignDown (total Sector.bytes pre + sectorHdrDataSize)) (envSize / sectorSize))
      (total Sector.bytes pre + sectorHdrDataSize) envSize := by
  have hhdr : sectorHdrDataSize = 16 := rfl
  have hsec : sectorSize = 4096 := rfl
  have harea : envAreaSize = 49152 := rfl
  have htotal := hl.total
  rw [total_append, total_append, total_empty hall] at htotal
  have hpos : 0 < run.length := Nat.lt_of_lt_of_le (Nat.succ_pos _) hlen
  have hlong : (envSize / sectorSize + 1) * 4096 ≤ run.length * 4096 := Nat.mul_le_mul_right _ hlen
  have hdown := alignDown_add (x := 16) (total_aligned pre) (by decide)
  obtain ⟨g, hg, hc, -, -, hroom⟩ := hp.head hl (by omega)
  rw [hhdr] at hg hroom hhead ⊢
  rw [hdown] at hg hroom ⊢
  rw [hsec] at hhead hroom hlong ⊢
  refine safe_of_apart hg hc hdown hroom (Nat.le_refl _) (by omega) fun y hy => ?_
  rcases envsOf_row hall hy with ⟨-, h⟩ | h
  · exact .inl h
  · exact .inr (.inr (Nat.le_trans (Nat.add_le_add_left hlong _) h))

/-- The end of a sector in use and the row behind it. -/
theorem safe_front (hl : Area fl (pre ++ [g] ++ run ++ post)) (hall : ∀ s ∈ run, s.Empty)
    (hlen : run.length = envSize / sectorSize + 1) (hc : g.combined = sectorNotCombined)
    (hu : g.store = .inUse) (hr : 0 < g.remain) (hfits : envSize % sectorSize ≤ g.remain)
    (hp : Place envSize (pre ++ [g] ++ run ++ post) (g.emptyEnv (total Sector.bytes pre))) :
    Safe (pre ++ [g] ++ run ++ post) fl
      (combineAt fl (alignDown (g.emptyEnv (total Sector.bytes pre))) (envSize / sectorSize))
      (g.emptyEnv (total Sector.bytes pre)) envSize := by
  have hhdr : sectorHdrDataSize = 16 := rfl
  have hsec : sectorSize = 4096 := rfl
  have harea : envAreaSize = 49152 := rfl
  have hne : ¬ g.Empty := fun he => StoreStatus.noConfusion (hu.symm.trans he.1)
  obtain ⟨hbytes, -, hcase⟩ := Sector.single_cases hc hne (total Sector.bytes pre)
  obtain ⟨-, haddr, hused⟩ : g.store = .inUse ∧
      g.emptyEnv (total Sector.bytes pre) + g.remain = total Sector.bytes pre + 4096 ∧
      g.remain + 16 + g.used = 4096 := by
    rcases hcase with h | ⟨h, -⟩
    · exact h
    · exact absurd (hu.symm.trans h) StoreStatus.noConfusion
  have htotal := hl.total
  rw [total_append, total_append, total_append, total_cons, total_nil, total_empty hall, hbytes]
    at htotal
  have hpos : 0 < run.length := hlen ▸ Nat.succ_pos _
  have hstart : g.emptyEnv (total Sector.bytes pre) = total Sector.bytes pre + (16 + g.used) := by
    omega
  have hdown := alignDown_add (x := 16 + g.used) (total_aligned pre) (by omega)
  obtain ⟨g', hg', hc', -, -, hroom⟩ := hp.head hl (by omega)
  rw [hstart] at hg' hroom ⊢
  rw [hdown] at hg' hroom ⊢
  rw [hsec] at hfits hroom hlen ⊢
  refine safe_of_apart hg' hc' hdown hroom (by omega) (by omega) fun y hy => ?_
  rcases envsOf_row hall hy with ⟨hy, -⟩ | h
  · rcases envsOf_front hy with h | h
    · exact .inl h
    · exact .inr (.inl (by omega))
  · rw [total_append, total_cons, total_nil, hbytes] at h
    exact .inr (.inr (by omega))

/-- Combined sectors are safe space if and only if the ENV fits. -/
theorem allocCombine_safe_iff (hl : Area ef.flash l) (hn : envAreaSize ≤ n)
    (hmin : sectorSize - sectorHdrDataSize < envSize)
    (h : allocCombine n m ef envSize = some (a, m', ef')) (ha : a ≠ failedAddr) :
    Safe l ef.flash ef'.flash a envSize ↔ Fits l envSize := by
  have hhdr : sectorHdrDataSize = 16 := rfl
  have hsec : sectorSize = 4096 := rfl
  have harea : envAreaSize = 49152 := rfl
  constructor
  · intro hs
    have harea' := hs.area
    have hin := hs.inside
    rw [envStartAddr, Nat.zero_add] at harea'
    have hsize : envSize ≤ envAreaSize := by omega
    have hlt : a < envAreaSize := by omega
    obtain ⟨hp, hfl⟩ := allocCombine_place hl hn hsize hmin h ha
    have hfl := hfl hlt
    obtain ⟨g', hg', hc', -, -, hroom⟩ := hp.head hl hlt
    rw [hfl, coveredBytes_combineAt hg' hc' (by omega)] at hin
    cases hp with
    | nowhere => exact absurd hlt (by decide)
    | row pre run post hsplit hall hlen hfront hroom' =>
      rw [hhdr, alignDown_add (total_aligned pre) (by decide), hsec] at hin
      exact ⟨hsize, by rw [hsec, hhdr]; omega, hfront, hroom'⟩
    | front pre run post g hsplit hall hlen hc hfull hfits hrow =>
      have hP := total_aligned pre
      have hmem : g ∈ l := by rw [hsplit]; simp
      have hat : l[pre.length]? = some g := by rw [hsplit]; simp
      obtain ⟨hbytes, hne, hcase⟩ := Sector.single_cases hc hfull (total Sector.bytes pre)
      have hremain : g.remain ≤ 4080 := by omega
      refine ⟨hsize, by rw [hsec, hhdr]; rw [hsec] at hfits; omega, fun hz => ?_,
        fun _ => ⟨g, hmem, hfull⟩⟩
      intro i s hi his _
      rw [Nat.add_right_cancel (hi.unique (hrow hz)), hat] at his
      cases his
      have hplaced : place Sector.bytes envStartAddr l =
          place Sector.bytes envStartAddr pre ++ (total Sector.bytes pre, g) ::
            place Sector.bytes (total Sector.bytes pre + 4096) (run ++ post) := by
        rw [hsplit, List.append_assoc, List.append_assoc, place_append, List.singleton_append,
          place_cons, hbytes, envStartAddr, Nat.zero_add]
      rcases hcase with ⟨hu, haddr, -⟩ | ⟨hu, haddr, -⟩
      · refine ⟨hu, Nat.pos_of_ne_zero fun h0 => ?_⟩
        -- no space is left: the ENV starts at the header of the row
        obtain ⟨x, rest, rfl⟩ : ∃ x rest, run = x :: rest :=
          List.exists_cons_of_length_pos (hlen ▸ Nat.succ_pos _)
        have hx : (total Sector.bytes pre + 4096, x) ∈ place Sector.bytes envStartAddr l := by
          rw [hplaced]
          simp
        have hdown : alignDown (g.emptyEnv (total Sector.bytes pre)) =
            total Sector.bytes pre + 4096 := by
          rw [h0, Nat.add_zero] at haddr
          rw [haddr]
          exact alignDown_add (x := 0) (Nat.dvd_add hP (Nat.dvd_refl 4096)) (by decide)
        have hover : Disjoint (span (g.emptyEnv (total Sector.bytes pre)) envSize)
            (span (total Sector.bytes pre + 4096) sectorHdrDataSize) :=
          hs.headers _ hx (by rw [hdown]; exact fun hc => Nat.lt_irrefl _ hc.1)
        rw [span_disjoint] at hover
        omega
      · -- a full sector: the ENV starts where its first one does
        obtain ⟨e, rest, he⟩ := List.exists_cons_of_ne_nil hne
        have hmem' : (total Sector.bytes pre + sectorHdrDataSize, e) ∈ envsOf l := by
          unfold envsOf
          rw [hplaced, List.flatMap_append, List.flatMap_cons, he]
          simp
        have hover : Disjoint (span (g.emptyEnv (total Sector.bytes pre)) envSize)
            (span (total Sector.bytes pre + sectorHdrDataSize) e.len) := hs.apart _ hmem'
        have hpos := e.le_len
        rw [span_disjoint, haddr] at hover
        omega
  · intro hf
    obtain ⟨hp, hfl⟩ := allocCombine_place hl hn hf.size hmin h ha
    cases hp with
    | nowhere hall hsize =>
      obtain ⟨s, hs, hne⟩ := hf.room hsize
      exact absurd (hall s hs) hne
    | row pre run post hsplit hall hlen hfront hroom =>
      subst hsplit
      have htotal := hl.total
      rw [total_append, total_append, total_empty hall] at htotal
      have hpos : 0 < run.length := Nat.lt_of_lt_of_le (Nat.succ_pos _) hlen
      rw [hfl (by omega)]
      exact safe_row hl hall hlen hf.header (.row pre run post rfl hall hlen hfront hroom)
    | front pre run post g hsplit hall hlen hc hfull hfits hrow =>
      subst hsplit
      have htotal := hl.total
      obtain ⟨hbytes, -, hcase⟩ := Sector.single_cases hc hfull (total Sector.bytes pre)
      rw [total_append, total_append, total_append, total_cons, total_nil, total_empty hall,
        hbytes] at htotal
      have hpos : 0 < run.length := hlen ▸ Nat.succ_pos _
      have hgood : g.store = .inUse ∧ 0 < g.remain := by
        by_cases hz : envSize % sectorSize = 0
        · exact hf.front hz pre.length g (hrow hz) (by simp) hc
        · rcases hcase with ⟨hu, -, -⟩ | ⟨-, -, h0⟩
          · exact ⟨hu, by omega⟩
          · omega
      rw [hfl (by omega)]
      exact safe_front hl hall hlen hc hgood.1 hgood.2 hfits
        (.front pre run post g rfl hall hlen hc hfull hfits hrow)

/-- A structure on the stack. -/
def stackSector : SectorMeta :=
  { checkOk := false, store := .unused, dirty := .unused, addr := 0, magic := 0, combined := 0,
    remain := 0, emptyEnv := 0 }

/-- A formatted area. -/
def formattedEf : Ef := { flash := formatArea fun _ => 0, gcRequest := false }

end Tudu.Flash
