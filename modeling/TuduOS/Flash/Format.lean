import TuduOS.Flash.Area

/-!
# A formatted area

`format_sector` makes an empty sector of 4096 bytes, whatever they were (`formatSector_at`). With
all sectors formatted, the area is one of twelve empty sectors (`formatArea_area`).
-/

namespace Tudu.Flash

open Bytes (Memory)
open Nor Tiling

/-- The bytes that `format_sector` writes. -/
def formatHdr (combined : Nat) : Nat → UInt8 := fun i =>
  if i = 0 then setStatus StoreStatus.empty.code
  else if i = 1 then setStatus DirtyStatus.clean.code
  else if i < 4 then 0xFF
  else if i < 8 then word sectorMagicWord (i - 4)
  else if i < 12 then word combined (i - 8)
  else 0xFF

def formatSector (fl : Memory) (addr combined : Nat) : Memory :=
  program (erase fl addr sectorSize) addr sectorHdrDataSize (formatHdr combined)

/-- All sectors of `ef_env_set_default` are formatted. -/
def formatSectors (fl : Memory) : Nat → Memory
  | 0 => fl
  | k + 1 => formatSector (formatSectors fl k) (envStartAddr + k * sectorSize) sectorNotCombined

def formatArea (fl : Memory) : Memory := formatSectors fl sectorNum

/-- An empty sector. -/
def emptySector : Sector where
  store := .empty
  dirty := .clean
  combined := sectorNotCombined
  envs := []
  ready := StoreStatus.noConfusion
  combined_pos := sectorNotCombined_pos
  empty_iff := ⟨fun _ => rfl, fun _ => rfl⟩
  fits := by decide

variable {fl : Memory} {p k x : Nat}

theorem formatSector_apart {c : Nat} (hx : x < p ∨ p + 4096 ≤ x) : formatSector fl p c x = fl x := by
  have hsec : sectorSize = 4096 := rfl
  have hhdr : sectorHdrDataSize = 16 := rfl
  unfold formatSector
  rw [program_apart (by omega), erase_apart (by omega)]

/-- The bytes of a formatted sector. -/
theorem formatSector_byte {c i : Nat} (hi : i < 4096) :
    formatSector fl p c (p + i) = if i < 16 then formatHdr c i else 0xFF := by
  have hsec : sectorSize = 4096 := rfl
  have hhdr : sectorHdrDataSize = 16 := rfl
  have hones : (0xFF : UInt8) = -1 := by decide
  have herased : erase fl p sectorSize (p + i) = 0xFF := erased_erase _ (by omega) (by omega)
  unfold formatSector program
  rw [herased, Nat.add_sub_cancel_left]
  by_cases h : i < 16
  · rw [if_pos (by omega), if_pos h, hones, UInt8.neg_one_and]
  · rw [if_neg (by omega), if_neg h]

/-- A number in a formatted header. -/
theorem formatSector_get {c j : Nat} (hj : j + k ≤ 16) :
    Bytes.get (formatSector fl p c) (p + j) k = Bytes.get (formatHdr c) j k := by
  induction k generalizing j with
  | zero => rfl
  | succ k ih =>
    unfold Bytes.get
    rw [Nat.add_assoc, ih (by omega), formatSector_byte (by omega), if_pos (by omega)]

theorem formatSector_at : SectorAt (formatSector fl p sectorNotCombined) p emptySector where
  magic := (formatSector_get (j := 4) (by decide)).trans (by decide)
  store := by
    have h : formatSector fl p sectorNotCombined (p + 0) =
        if 0 < 16 then formatHdr sectorNotCombined 0 else 0xFF := formatSector_byte (by decide)
    rw [Nat.add_zero] at h
    rw [h]
    decide
  dirty := by
    rw [formatSector_byte (by decide)]
    decide
  combined := (formatSector_get (j := 8) (by decide)).trans (by decide)
  envs x hx := absurd hx List.not_mem_nil
  erased x h1 h2 := by
    have hhdr : sectorHdrDataSize = 16 := rfl
    have hused : emptySector.used = 0 := rfl
    have hbytes : emptySector.bytes = 4096 := rfl
    obtain ⟨i, rfl⟩ := Nat.exists_eq_add_of_le (show p ≤ x by omega)
    rw [formatSector_byte (by omega), if_neg (by omega)]

/-- Each of the first sectors is formatted, and stays so. -/
theorem formatSectors_at {i : Nat} (hi : i < k) :
    SectorAt (formatSectors fl k) (envStartAddr + i * sectorSize) emptySector := by
  have hsec : sectorSize = 4096 := rfl
  induction k with
  | zero => exact absurd hi (Nat.not_lt_zero i)
  | succ k ih =>
    unfold formatSectors
    rcases Nat.lt_or_eq_of_le (Nat.le_of_lt_succ hi) with hlt | rfl
    · refine (ih hlt).congr fun x h1 h2 => formatSector_apart (.inl ?_)
      have hnext : (i + 1) * sectorSize ≤ k * sectorSize := Nat.mul_le_mul_right _ hlt
      have hbytes : emptySector.bytes = 4096 := rfl
      rw [Nat.succ_mul] at hnext
      omega
    · exact formatSector_at

theorem place_replicate (o k : Nat) (y : Nat × Sector)
    (h : y ∈ place Sector.bytes o (List.replicate k emptySector)) :
    ∃ i, i < k ∧ y = (o + i * sectorSize, emptySector) := by
  induction k generalizing o with
  | zero => exact absurd h List.not_mem_nil
  | succ k ih =>
    rw [List.replicate_succ, place_cons] at h
    rcases List.mem_cons.mp h with rfl | h
    · exact ⟨0, Nat.succ_pos k, by rw [Nat.zero_mul, Nat.add_zero]⟩
    · obtain ⟨i, hi, rfl⟩ := ih _ h
      have hbytes : emptySector.bytes = sectorSize := rfl
      exact ⟨i + 1, Nat.succ_lt_succ hi, by rw [hbytes, Nat.succ_mul, Nat.add_assoc, Nat.add_comm sectorSize]⟩

/-- Whatever the flash was. -/
theorem formatArea_area (fl : Memory) : Area (formatArea fl) (List.replicate sectorNum emptySector) where
  total := rfl
  sectors y hy := by
    obtain ⟨i, hi, rfl⟩ := place_replicate _ _ _ hy
    exact formatSectors_at hi

end Tudu.Flash
