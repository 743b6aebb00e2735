import TuduOS.Flash.Area
import TuduOS.Lib.FirstRun

/-!
# Empty sectors in a row

Where `contsector_wander_find` puts an ENV (`Place`): behind the start of a row of empty sectors, or
into the sector in front of it. The row is the first of its length (`FirstRun`).

The scan counts the bytes that are left to place, and a row is long enough when they are below
`-SECTOR_HDR_DATA_SIZE`. The row has one sector more than `alloc_env` combines if the ENV ends in
the last 16 bytes of a sector.
-/

namespace Tudu.Flash

open Bytes (Memory)
open Nor Tiling FirstRun

variable {fl : Memory} {o n k envSize a : Nat} {l pre run post : List Sector} {s g : Sector}
  {m : SectorMeta} {w : Wander}

/-- What `first_sec_addr` is behind these sectors: the address of the last one, with the number of
its sectors in the low bits if it is combined. -/
def firstSecAddr (pre : List Sector) : Nat :=
  match pre.getLast? with
  | none => failedAddr
  | some g =>
    total Sector.bytes pre.dropLast + (if g.combined = sectorNotCombined then 0 else g.combined)

theorem firstSecAddr_append (pre : List Sector) (g : Sector) :
    firstSecAddr (pre ++ [g]) =
      total Sector.bytes pre + (if g.combined = sectorNotCombined then 0 else g.combined) := by
  unfold firstSecAddr
  rw [List.getLast?_append, List.dropLast_concat]
  rfl

/-- The sectors that a row needs for the scan to stop. -/
def rowSize (envSize : Nat) : Nat := (envSize + sectorHdrDataSize) / sectorSize + 1

/-- If the ENV fills its sectors to the last byte, the sector in front of the row is combined, or
in use with some space left. -/
def Front (envSize : Nat) (l : List Sector) : Prop :=
  ∀ i g, First Sector.Empty (envSize / sectorSize + 1) l (i + 1) → l[i]? = some g →
    g.combined = sectorNotCombined → g.store = .inUse ∧ 0 < g.remain

/-- Where `contsector_wander_find` puts an ENV. -/
inductive Place (envSize : Nat) (l : List Sector) : Nat → Prop where
  /-- At the start of a row of empty sectors. -/
  | row (pre run post : List Sector) (split : l = pre ++ run ++ post) (all : ∀ s ∈ run, s.Empty)
      (length : envSize / sectorSize + 1 ≤ run.length)
      (front : envSize % sectorSize = 0 → Front envSize l)
      (room : envSize + sectorHdrDataSize = envAreaSize → ∃ s ∈ l, ¬ s.Empty) :
      Place envSize l (total Sector.bytes pre + sectorHdrDataSize)
  /-- At the end of the sector in front of the row. -/
  | front (pre run post : List Sector) (g : Sector) (split : l = pre ++ [g] ++ run ++ post)
      (all : ∀ s ∈ run, s.Empty) (length : run.length = envSize / sectorSize + 1)
      (single : g.combined = sectorNotCombined) (full : ¬ g.Empty)
      (fits : envSize % sectorSize ≤ g.remain)
      (row : envSize % sectorSize = 0 →
        First Sector.Empty (envSize / sectorSize + 1) l (pre.length + 1)) :
      Place envSize l (g.emptyEnv (total Sector.bytes pre))
  /-- Outside of the area: all sectors are empty, and the ENV needs them all. -/
  | nowhere (all : ∀ s ∈ l, s.Empty) (size : envSize + sectorHdrDataSize = envAreaSize) :
      Place envSize l 0x00FFE010

/-- What the loop knows that has read `pre ++ run`. -/
structure Scanned (envSize : Nat) (pre run : List Sector) (w : Wander) : Prop where
  scan : Scan Sector.Empty (rowSize envSize) pre run
  temp : w.envSizeTemp = (envSize : Int) - run.length * 4096
  first : w.firstSecAddr = firstSecAddr pre
  behind : Behind w.sector (total Sector.bytes (pre ++ run))

/-- The loop has come to the end of a row that is long enough. -/
structure Stopped (envSize : Nat) (l pre run : List Sector) (w : Wander) : Prop where
  split : ∃ post, l = pre ++ run ++ post
  all : ∀ s ∈ run, s.Empty
  length : run.length = rowSize envSize
  row : First Sector.Empty (rowSize envSize) l pre.length
  ends : ∀ l g, pre = l ++ [g] → ¬ g.Empty
  temp : w.envSizeTemp = (envSize : Int) - run.length * 4096
  first : w.firstSecAddr = if pre = [] then 0 else firstSecAddr pre

theorem int32_of_lt {x : Int} (h1 : -(2 ^ 31) ≤ x) (h2 : x < 2 ^ 31) : int32 x = x := by
  unfold int32
  rw [Int.bmod_eq_of_le] <;> omega

theorem total_empty (h : ∀ s ∈ run, s.Empty) : total Sector.bytes run = run.length * 4096 := by
  induction run with
  | nil => rfl
  | cons s run ih =>
    have hs := (h s List.mem_cons_self).2
    have hbytes : s.bytes = 4096 := Sector.bytes_single hs
    rw [total_cons, ih fun x hx => h x (List.mem_cons_of_mem _ hx), hbytes, List.length_cons]
    omega

/-- An address in the area is not `FAILED_ADDR`. -/
theorem firstSecAddr_eq_failed (hl : total Sector.bytes pre ≤ envAreaSize) :
    firstSecAddr pre = failedAddr ↔ pre = [] := by
  have harea : envAreaSize = 49152 := rfl
  constructor
  · intro h
    rcases List.eq_nil_or_concat' pre with rfl | ⟨pre, g, rfl⟩
    · rfl
    · rw [firstSecAddr_append, failedAddr] at h
      have hg : (if g.combined = sectorNotCombined then 0 else g.combined) ≤ g.bytes := by
        unfold Sector.bytes Sector.span sectorSize
        split <;> omega
      rw [total_append, total_cons, total_nil] at hl
      omega
  · rintro rfl
    rfl

/-- The loop stops at the first row that is long enough, or reads all sectors. -/
theorem contsectorWander_eq (hsize : envSize ≤ envAreaSize) (h : Scanned envSize pre run w)
    (hl : From fl (total Sector.bytes (pre ++ run)) post)
    (hn : envAreaSize + post.length < n + sectorSize) :
    ∃ w', contsectorWander envSize n fl w = some (w', fl) ∧
      ((∃ pre' run', Stopped envSize (pre ++ run ++ post) pre' run' w') ∨
        ∃ pre' run', pre ++ run ++ post = pre' ++ run' ∧ Scanned envSize pre' run' w') := by
  have harea : envAreaSize = 49152 := rfl
  have hsec : sectorSize = 4096 := rfl
  have hrow : rowSize envSize = (envSize + 16) / 4096 + 1 := rfl
  have hhdr : sectorHdrDataSize = 16 := rfl
  induction post generalizing n pre run w with
  | nil =>
    obtain ⟨n, rfl⟩ : ∃ k, n = k + 1 := ⟨n - 1, by omega⟩
    unfold contsectorWander
    rw [h.behind.none hl]
    exact ⟨w, if_pos rfl, .inr ⟨pre, run, by rw [List.append_nil], h⟩⟩
  | cons s post ih =>
    rw [List.length_cons] at hn
    obtain ⟨n, rfl⟩ : ∃ k, n = k + 1 := ⟨n - 1, by omega⟩
    obtain ⟨hnext, hne⟩ := h.behind.some hl
    have hread := readSectorMetaData_true (n := n) hl.head hl.aligned hl.bound (by omega) w.sector
    have hbound := hl.bound
    have hpos := s.bytes_pos
    have htotal : total Sector.bytes (pre ++ run) = total Sector.bytes pre + run.length * 4096 := by
      rw [total_append, total_empty h.scan.all]
    have hbehind : Behind (s.toMeta (total Sector.bytes (pre ++ run)))
        (total Sector.bytes (pre ++ run ++ [s])) := by
      rw [total_append _ [s], total_cons, total_nil, Nat.add_zero]
      exact behind_sector rfl rfl hbound
    have hrest : From fl (total Sector.bytes (pre ++ run ++ [s])) post := by
      rw [total_append _ [s], total_cons, total_nil, Nat.add_zero]
      exact hl.tail
    unfold contsectorWander
    simp only [hnext, if_neg hne, hread, Option.bind_eq_bind, Option.bind_some]
    rw [if_neg (show ¬ (s.toMeta (total Sector.bytes (pre ++ run))).checkOk = false from
      Bool.noConfusion)]
    by_cases hs : s.Empty
    · have hstep : int32 (w.envSizeTemp - sectorSize) =
          (envSize : Int) - (run.length + 1) * 4096 := by
        rw [h.temp, int32_of_lt] <;> omega
      have hshort := h.scan.short
      have hall : ∀ x ∈ run ++ [s], x.Empty := by
        intro x hx
        rcases List.mem_append.mp hx with hx | hx
        · exact h.scan.all x hx
        · rwa [List.mem_singleton.mp hx]
      have hlen : (run ++ [s]).length = run.length + 1 := by simp
      rw [if_pos (show (s.toMeta _).store = .empty ∧ (s.toMeta _).combined = _ from hs), hstep]
      by_cases hfull : run.length + 1 = rowSize envSize
      · -- the row is long enough
        rw [if_pos (by omega)]
        refine ⟨_, rfl, .inl ⟨pre, run ++ [s], ?_⟩⟩
        have hfound := h.scan.found hs hfull post
        exact {
          split := ⟨post, by simp⟩
          all := hall
          length := by rw [hlen, hfull]
          row := hfound
          ends := h.scan.ends
          temp := by rw [hlen]; push_cast; rfl
          first := by
            simp only [h.first, firstSecAddr_eq_failed (show total Sector.bytes pre ≤ envAreaSize by
              omega)] }
      · rw [if_neg (by omega)]
        have hscanned : Scanned envSize pre (run ++ [s])
            { w with
              sector := s.toMeta (total Sector.bytes (pre ++ run))
              envSizeTemp := (envSize : Int) - (run.length + 1) * 4096 } := {
          scan := h.scan.push hs (by omega)
          temp := by rw [hlen]; push_cast; rfl
          first := h.first
          behind := by rw [← List.append_assoc]; exact hbehind }
        have hgo := ih (n := n) hscanned (by rwa [← List.append_assoc]) (by omega)
        rwa [← List.append_assoc, List.append_assoc _ [s], List.singleton_append] at hgo
    · have htemp : int32 (envSize : Int) = envSize := int32_of_lt (by omega) (by omega)
      have hcomb : (if s.combined = sectorNotCombined then total Sector.bytes (pre ++ run)
          else add32 (total Sector.bytes (pre ++ run)) s.combined) =
          firstSecAddr (pre ++ run ++ [s]) := by
        rw [firstSecAddr_append]
        split
        · rfl
        · next hc =>
          have hcb : s.combined ≤ s.bytes := by
            unfold Sector.bytes Sector.span sectorSize
            rw [if_neg hc]
            omega
          exact add32_of_lt (by omega)
      rw [if_neg (show ¬ ((s.toMeta _).store = .empty ∧ (s.toMeta _).combined = _) from hs), htemp]
      have hscanned : Scanned envSize (pre ++ run ++ [s]) []
          { sector := s.toMeta (total Sector.bytes (pre ++ run))
            envSizeTemp := envSize
            firstSecAddr := firstSecAddr (pre ++ run ++ [s]) } := {
        scan := h.scan.reset hs
        temp := by simp
        first := rfl
        behind := by rw [List.append_nil]; exact hbehind }
      have hgo := ih (n := n) hscanned (by rwa [List.append_nil]) (by omega)
      rw [List.append_nil, List.append_assoc _ [s], List.singleton_append] at hgo
      rw [← hcomb] at hgo
      exact hgo

/-- The row is behind a sector that is not empty: its space is used, or the row alone. -/
theorem contsectorWanderFind_behind {t : Int} (hl : From fl envStartAddr l)
    (hsplit : l = pre ++ [g] ++ run ++ post) (hall : ∀ s ∈ run, s.Empty) (hg : ¬ g.Empty)
    (hn : envAreaSize ≤ n + sectorSize)
    (ht : t = (envSize : Int) - run.length * 4096) (hstop : t ≤ -16) (hlong : -4112 ≤ t)
    (hrow : envSize % sectorSize = 0 →
      First Sector.Empty (envSize / sectorSize + 1) l (pre.length + 1)) (m : SectorMeta) :
    ∃ a m',
      (if 0 < firstSecAddr (pre ++ [g]) % sectorSize then
        some (add32 (add32 (alignDown (firstSecAddr (pre ++ [g])))
          (mul32 (firstSecAddr (pre ++ [g]) % sectorSize) sectorSize)) sectorHdrDataSize, m, fl)
      else do
        let (sector, fl) ← readSectorMetaData n fl (firstSecAddr (pre ++ [g])) m true
        if ((t + sectorSize) % 4294967296).toNat ≤ sector.remain then
          some (sector.emptyEnv, sector, fl)
        else some (add32 (add32 sector.addr sectorSize) sectorHdrDataSize, sector, fl)) =
        some (a, m', fl) ∧ Place envSize l a := by
  have harea : envAreaSize = 49152 := rfl
  have hsec : sectorSize = 4096 := rfl
  have hhdr : sectorHdrDataSize = 16 := rfl
  have hmid : From fl (total Sector.bytes pre) (g :: (run ++ post)) := by
    have hsplit' : l = pre ++ g :: (run ++ post) := by rw [hsplit]; simp
    have hfrom := From.mid (hsplit' ▸ hl)
    rwa [envStartAddr, Nat.zero_add] at hfrom
  have hbound := hmid.bound
  have hpos := hmid.aligned
  have hroom : envSize + sectorHdrDataSize = envAreaSize → ∃ s ∈ l, ¬ s.Empty :=
    fun _ => ⟨g, by rw [hsplit]; simp, hg⟩
  have hat : l[pre.length]? = some g := by rw [hsplit]; simp
  have hrowAt : total Sector.bytes (pre ++ [g]) + sectorHdrDataSize =
      total Sector.bytes pre + g.bytes + sectorHdrDataSize := by
    rw [total_append, total_cons, total_nil, Nat.add_zero]
  rw [firstSecAddr_append]
  by_cases hc : g.combined = sectorNotCombined
  · -- the sector in front is a single one
    have hbytes : g.bytes = 4096 := Sector.bytes_single hc
    have hread := readSectorMetaData_true hmid.head hpos hbound hn m
    rw [if_pos hc, Nat.add_zero, if_neg (by rw [Nat.mod_eq_zero_of_dvd hpos]; decide)]
    simp only [hread, Option.bind_eq_bind, Option.bind_some]
    have hremain : g.remain ≤ 4080 := by
      unfold Sector.remain
      split <;> omega
    by_cases hfit : ((t + sectorSize) % 4294967296).toNat ≤ (g.toMeta (total Sector.bytes pre)).remain
    · rw [if_pos hfit]
      have hfit' : ((t + sectorSize) % 4294967296).toNat ≤ g.remain := hfit
      have hq : run.length = envSize / 4096 + 1 ∧ envSize % 4096 ≤ g.remain := by omega
      exact ⟨_, _, rfl, .front pre run post g hsplit hall hq.1 hc hg hq.2 hrow⟩
    · rw [if_neg hfit]
      have hfit' : ¬ ((t + sectorSize) % 4294967296).toNat ≤ g.remain := hfit
      have haddr : add32 (add32 (g.toMeta (total Sector.bytes pre)).addr sectorSize)
          sectorHdrDataSize = total Sector.bytes (pre ++ [g]) + sectorHdrDataSize := by
        rw [hrowAt, hbytes]
        change add32 (add32 (total Sector.bytes pre) sectorSize) sectorHdrDataSize = _
        have hnext : add32 (total Sector.bytes pre) sectorSize =
            total Sector.bytes pre + sectorSize := add32_of_lt (by omega)
        rw [hnext, add32_of_lt (by omega), hsec]
      rw [haddr]
      have hq : envSize / 4096 + 1 ≤ run.length ∧ envSize % 4096 ≠ 0 := by omega
      exact ⟨_, _, rfl, .row (pre ++ [g]) run post hsplit hall hq.1 (absurd · hq.2) hroom⟩
  · have hbytes : g.bytes = g.combined * 4096 := by
      unfold Sector.bytes Sector.span
      rw [if_neg hc]
      rfl
    have hcpos := g.combined_pos
    have hpos' : 4096 ∣ total Sector.bytes pre := hpos
    have hmod : (total Sector.bytes pre + g.combined) % sectorSize = g.combined := by
      rw [hsec]
      omega
    have hdown : alignDown (total Sector.bytes pre + g.combined) = total Sector.bytes pre := by
      unfold alignDown
      rw [hsec]
      omega
    have hmul : mul32 g.combined sectorSize = g.bytes := by
      unfold mul32
      rw [hsec]
      omega
    have hnext : add32 (total Sector.bytes pre) g.bytes = total Sector.bytes pre + g.bytes :=
      add32_of_lt (by omega)
    rw [if_neg hc, hmod, if_pos hcpos, hdown, hmul, hnext, add32_of_lt (by omega), ← hrowAt]
    have hq : envSize / 4096 + 1 ≤ run.length := by omega
    refine ⟨_, _, rfl, .row (pre ++ [g]) run post hsplit hall hq ?_ hroom⟩
    intro hz i g' hfirst hg' hc'
    have hi := hfirst.unique (hrow hz)
    rw [Nat.add_right_cancel hi, hat] at hg'
    cases hg'
    exact absurd hc' hc

/-- `contsector_wander_find` fails, or puts the ENV at one of these places. -/
theorem contsectorWanderFind_place (hsize : envSize ≤ envAreaSize)
    (hmin : sectorSize - sectorHdrDataSize < envSize) (hl : From fl envStartAddr l)
    (hm : m.addr = failedAddr) (hn : envAreaSize + l.length < n + sectorSize) :
    ∃ a m', contsectorWanderFind n m fl envSize = some (a, m', fl) ∧
      (a = failedAddr ∨ Place envSize l a) := by
  have harea : envAreaSize = 49152 := rfl
  have hsec : sectorSize = 4096 := rfl
  have hhdr : sectorHdrDataSize = 16 := rfl
  have hrow : rowSize envSize = (envSize + 16) / 4096 + 1 := rfl
  have hstart : Scanned envSize [] []
      { sector := m, envSizeTemp := int32 envSize, firstSecAddr := failedAddr } := {
    scan := Scan.nil (Nat.succ_pos _)
    temp := by
      rw [int32_of_lt (by omega) (by omega)]
      simp
    first := rfl
    behind := behind_start hm }
  obtain ⟨w, hw, hcase⟩ := contsectorWander_eq hsize hstart hl hn
  have hlen := hl.length_le
  have hfuel : envAreaSize ≤ n + sectorSize := by omega
  unfold contsectorWanderFind
  rw [if_neg (not_not.mpr hmin)]
  simp only [hw, Option.bind_eq_bind, Option.bind_some]
  rw [List.nil_append, List.nil_append] at hcase
  rcases hcase with ⟨pre, run, h⟩ | ⟨pre, run, hsplit, h⟩
  · obtain ⟨post, hsplit⟩ := h.split
    have hlong := h.length
    rw [if_neg (by rw [h.temp]; omega)]
    rcases List.eq_nil_or_concat' pre with rfl | ⟨pre, g, rfl⟩
    · -- the row is at the start of the area
      obtain ⟨x, rest, rfl⟩ : ∃ x rest, run = x :: rest :=
        List.exists_cons_of_length_pos (by omega)
      have hx := h.all x List.mem_cons_self
      have hfrom : From fl envStartAddr (x :: (rest ++ post)) := by
        rw [hsplit] at hl
        exact hl
      have hread := readSectorMetaData_true hfrom.head hfrom.aligned hfrom.bound hfuel w.sector
      have hbytes : x.bytes = 4096 := Sector.bytes_single hx.2
      have hmeta : x.toMeta envStartAddr =
          { checkOk := true, store := .empty, dirty := x.dirty, addr := 0,
            magic := sectorMagicWord, combined := sectorNotCombined, remain := 4080,
            emptyEnv := 16 } := by
        unfold Sector.toMeta Sector.remain Sector.emptyEnv
        simp only [hx.1, hx.2, hbytes]
        rfl
      have htemp := h.temp
      have hfirst : w.firstSecAddr = 0 := h.first
      have hroom : envSize + sectorHdrDataSize = envAreaSize → ∃ s ∈ l, ¬ s.Empty := by
        intro he
        have hle : (x :: rest).length ≤ l.length := by
          rw [hsplit]
          simp
        omega
      rw [hfirst, if_neg (by decide), show (0 : Nat) = envStartAddr from rfl, hread, Option.bind_some,
        hmeta]
      by_cases hfit : ((w.envSizeTemp + sectorSize) % 4294967296).toNat ≤ 4080
      · rw [if_pos hfit]
        have hq : envSize / 4096 + 1 ≤ (x :: rest).length := by omega
        refine ⟨_, _, rfl, .inr (.row [] (x :: rest) post hsplit h.all hq ?_ hroom)⟩
        intro hz i g hi
        have hz' : envSize % 4096 = 0 := hz
        have hk : rowSize envSize = envSize / 4096 + 1 := by omega
        have := h.row
        rw [hk] at this
        exact absurd (hi.unique this) (Nat.succ_ne_zero i)
      · rw [if_neg hfit]
        have hq : envSize / 4096 + 1 ≤ rest.length ∧ envSize % 4096 ≠ 0 := by
          rw [List.length_cons] at hlong htemp
          omega
        have hone : total Sector.bytes [x] + sectorHdrDataSize =
            add32 (add32 0 sectorSize) sectorHdrDataSize := by
          rw [total_cons, total_nil, hbytes]
          decide
        have hplace : Place envSize l (total Sector.bytes [x] + sectorHdrDataSize) :=
          .row [x] rest post hsplit (fun s hs => h.all s (List.mem_cons_of_mem _ hs)) hq.1
            (absurd · hq.2) hroom
        rw [hone] at hplace
        exact ⟨_, _, rfl, .inr hplace⟩
    · have hfirst : w.firstSecAddr = firstSecAddr (pre ++ [g]) := by
        rw [h.first, if_neg (by simp)]
      have hrow' : envSize % sectorSize = 0 →
          First Sector.Empty (envSize / sectorSize + 1) l (pre.length + 1) := by
        intro hz
        have hz' : envSize % 4096 = 0 := hz
        have hk : rowSize envSize = envSize / 4096 + 1 := by omega
        have := h.row
        rwa [hk, List.length_append] at this
      obtain ⟨a, m', ha, hp⟩ := contsectorWanderFind_behind hl hsplit h.all (h.ends pre g rfl)
        hfuel h.temp (by rw [h.temp]; omega) (by rw [h.temp]; omega) hrow' w.sector
      rw [hfirst]
      exact ⟨a, m', ha, .inr hp⟩
  · -- no row is long enough: all sectors are read
    have hshort := h.scan.short
    have htemp := h.temp
    by_cases hfail : -(sectorHdrDataSize : Int) < w.envSizeTemp
    · rw [if_pos hfail]
      exact ⟨_, _, rfl, .inl rfl⟩
    · rw [if_neg hfail]
      -- the last row is one sector too short, and the ENV fills it to the last byte
      have hexact : envSize + 16 = run.length * 4096 := by omega
      rcases List.eq_nil_or_concat' pre with rfl | ⟨pre, g, rfl⟩
      · have hfirst : w.firstSecAddr = failedAddr := h.first
        have htotal := hl.total
        rw [hsplit, List.nil_append, total_empty h.scan.all] at htotal
        rw [hfirst, if_pos (by decide)]
        refine ⟨_, _, rfl, .inr ?_⟩
        have haddr : add32 (add32 (alignDown failedAddr)
            (mul32 (failedAddr % sectorSize) sectorSize)) sectorHdrDataSize = 0x00FFE010 := by
          decide
        rw [haddr]
        refine .nowhere ?_ ?_
        · rw [hsplit]
          exact h.scan.all
        · rw [envStartAddr] at htotal
          omega
      · have hsplit' : l = pre ++ [g] ++ run ++ [] := by rw [hsplit, List.append_nil]
        have hrow' : envSize % sectorSize = 0 →
            First Sector.Empty (envSize / sectorSize + 1) l (pre.length + 1) := by
          intro hz
          have hz' : envSize % 4096 = 0 := hz
          omega
        obtain ⟨a, m', ha, hp⟩ := contsectorWanderFind_behind hl hsplit' h.scan.all
          (h.scan.ends pre g rfl) hfuel htemp (by omega) (by omega) hrow' w.sector
        rw [h.first]
        exact ⟨a, m', ha, .inr hp⟩

end Tudu.Flash
