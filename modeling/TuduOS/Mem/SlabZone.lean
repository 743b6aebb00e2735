import TuduOS.Lib.Chunks
import TuduOS.Mem.Slab

/-!
# Zones of the slab heap

* `zoneindex_spec`, `shape_newZone`: the sizes of the chunks, and where they are in a zone.
* `ZoneInv`: what holds of a zone, with its free chunks.
-/

namespace Tudu.Slab

open Chain Chunks Runs SlabHeap

/-! ## Sizes -/

/-- The size of the chunks of a zone, from its index. -/
def chunkSize (zi : Nat) : Nat :=
  if zi < 16 then (zi + 1) * 8
  else if zi < 24 then (zi - 7) * 16
  else if zi < 32 then (zi - 15) * 32
  else if zi < 40 then (zi - 23) * 64
  else if zi < 48 then (zi - 31) * 128
  else if zi < 56 then (zi - 39) * 256
  else if zi < 64 then (zi - 47) * 512
  else (zi - 55) * 1024

variable {n k c z zi i : Nat}

theorem roundUp_spec (hk : 0 < k) : n ≤ roundUp n k ∧ roundUp n k < n + k := by
  have hd := Nat.div_add_mod (n + (k - 1)) k
  have hm := Nat.mod_lt (n + (k - 1)) hk
  rw [Nat.mul_comm] at hd
  unfold roundUp
  omega

/-- The size is rounded up to the size of the chunks of its index. -/
structure Rounded (n : Nat) (r : Nat × Nat) : Prop where
  index : r.1 < nzones
  size : r.2 = chunkSize r.1
  le : n ≤ r.2
  pos : 8 ≤ r.2
  small : n < 8192 → r.2 ≤ 8192
  large : r.2 ≤ 16384

/-- Each class has nine sizes, of which it shares the least one with the class before. -/
theorem chunkSize_class : ∀ j < 7, ∀ q < 17, 8 ≤ q →
    chunkSize (q + (8 * j + 7)) = q * (16 * 2 ^ j) := by
  decide

theorem rounded_class {q m : Nat} (j : Nat) (hj : j < 7) (hk : k = 16 * 2 ^ j) (hm : m = 8 * j + 7)
    (h8 : 8 ≤ q) (h16 : q < 17) (hle : n ≤ q * k) (h1 : n < 8192 → q * k ≤ 8192) :
    Rounded n (q * k / k + m, q * k) := by
  have hpow : 2 ^ j ≤ 2 ^ 6 := Nat.pow_le_pow_right (by decide) (by omega)
  have hpos : 0 < 2 ^ j := Nat.pow_pos (by decide)
  have hq : q * k / k = q := Nat.mul_div_cancel q (by omega)
  have hsize : chunkSize (q + m) = q * k := by
    rw [hk, hm]
    exact chunkSize_class j hj q h16 h8
  have hmax : q * k ≤ 16 * (16 * 2 ^ 6) := Nat.mul_le_mul (by omega) (by omega)
  have hmin : 8 * 16 ≤ q * k := Nat.mul_le_mul h8 (by omega)
  constructor <;> simp only [hq, nzones]
  · omega
  · exact hsize.symm
  · exact hle
  · omega
  · exact h1
  · omega

theorem zoneindex_spec (h0 : 0 < n) (hn : n < 16384) : Rounded n (zoneindex n) := by
  unfold zoneindex roundUp
  split
  · have hq : (n + (8 - 1)) / 8 * 8 / 8 - 1 = (n + (8 - 1)) / 8 - 1 := by omega
    rw [hq]
    constructor
    all_goals simp only [nzones, chunkSize]
    · omega
    · rw [if_pos (by omega)]
      omega
    all_goals omega
  · split
    · exact rounded_class 0 (by decide) rfl rfl (by omega) (by omega) (by omega) (by omega)
    · split
      · split
        · exact rounded_class 1 (by decide) rfl rfl (by omega) (by omega) (by omega) (by omega)
        · split
          · exact rounded_class 2 (by decide) rfl rfl (by omega) (by omega) (by omega) (by omega)
          · split
            · exact rounded_class 3 (by decide) rfl rfl (by omega) (by omega) (by omega) (by omega)
            · split
              · exact rounded_class 4 (by decide) rfl rfl (by omega) (by omega) (by omega)
                  (by omega)
              · exact rounded_class 5 (by decide) rfl rfl (by omega) (by omega) (by omega)
                  (by omega)
      · exact rounded_class 6 (by decide) rfl rfl (by omega) (by omega) (by omega) (by omega)

theorem zoneindex_large (hn : 16384 ≤ n) : (zoneindex n).2 = n := by
  unfold zoneindex
  rw [if_neg (by omega), if_neg (by omega), if_neg (by omega), if_neg (by omega)]

/-- The size of a zone and the limit of its chunks, as `rt_system_heap_init` sets them. -/
def Conf (s : SlabHeap) : Prop :=
  s.zoneSize = 32768 ∧ s.zoneLimit = 8192 ∨ s.zoneSize = 65536 ∧ s.zoneLimit = 16384 ∨
    s.zoneSize = 131072 ∧ s.zoneLimit = 16384

/-- The chunks lie behind the header, in the zone. -/
structure Shape (zoneSize z : Nat) (h : SlabZone) : Prop where
  base : z * pageSize + headerSize ≤ h.baseptr
  fits : h.baseptr + h.nmax * h.chunksize ≤ z * pageSize + zoneSize
  index : h.zoneindex < nzones
  size : h.chunksize = chunkSize h.zoneindex
  pos : 8 ≤ h.chunksize
  two : 2 ≤ h.nmax
  used : h.uindex < h.nmax

theorem zoneOffset_spec (hc : 8 ≤ c) : headerSize ≤ zoneOffset c ∧ zoneOffset c < headerSize + c := by
  unfold zoneOffset
  split
  · exact roundUp_spec (by omega)
  · obtain ⟨h1, h2⟩ := roundUp_spec (n := headerSize) (k := 8) (by decide)
    exact ⟨h1, by omega⟩

/-- At least two chunks are in a new zone. -/
theorem nmax_spec {zoneSize : Nat} (hc : 8 ≤ c) (hz : 32768 ≤ zoneSize) (h4 : 4 * c ≤ zoneSize) :
    2 ≤ (zoneSize - zoneOffset c) / c ∧
      zoneOffset c + (zoneSize - zoneOffset c) / c * c ≤ zoneSize := by
  obtain ⟨-, hoff⟩ := zoneOffset_spec hc
  have hdiv := Nat.div_mul_le_self (zoneSize - zoneOffset c) c
  unfold headerSize at hoff
  constructor
  · rw [Nat.le_div_iff_mul_le (by omega)]
    omega
  · omega

/-! ## One zone -/

/-- The chunk with the number `i` -/
def chunkAt (h : SlabZone) (i : Nat) : Nat := h.baseptr + i * h.chunksize

/-- The block begins in the zone. -/
def inZone (zoneSize z : Nat) (r : Run) : Bool :=
  decide (z * pageSize ≤ r.1 ∧ r.1 < z * pageSize + zoneSize)

/-- The chunks of the zone that are out. -/
def chunksIn (s : SlabHeap) (z : Nat) : List Nat :=
  (s.live.filter (inZone s.zoneSize z)).map Prod.fst

/-- The zone `z`, and its free chunks. -/
structure ZoneInv (s : SlabHeap) (z : Nat) (free : List Nat) : Prop where
  shape : Shape s.zoneSize z (s.zone z)
  usage : ∀ i < s.zonePageCnt, s.memusage (z + i) = ⟨.small, i⟩
  chain : IsChain s.cNext (s.zone z).freechunk free
  ledger : Ledger (chunkAt (s.zone z)) ((s.zone z).uindex + 1) free (chunksIn s z)
  count : (s.zone z).nfree + ((s.zone z).uindex + 1) = (s.zone z).nmax + free.length

variable {s s' : SlabHeap} {free : List Nat} {h : SlabZone} {zoneSize : Nat}

theorem Shape.injective (hs : Shape zoneSize z h) : Function.Injective (chunkAt h) := by
  intro i j hij
  have hpos := hs.pos
  unfold chunkAt at hij
  exact Nat.eq_of_mul_eq_mul_right (by omega) (Nat.add_left_cancel hij)

/-- A chunk lies in the zone, behind its header. -/
theorem Shape.within (hs : Shape zoneSize z h) (hi : i < h.nmax) :
    z * pageSize + headerSize ≤ chunkAt h i ∧
      chunkAt h i + h.chunksize ≤ z * pageSize + zoneSize := by
  have hb := hs.base
  have hf := hs.fits
  have hm : (i + 1) * h.chunksize ≤ h.nmax * h.chunksize := Nat.mul_le_mul_right _ hi
  rw [Nat.succ_mul] at hm
  unfold chunkAt
  omega

/-- Two chunks are apart. -/
theorem chunkAt_apart {j : Nat} (hij : i ≠ j) :
    Apart (chunkAt h i, h.chunksize) (chunkAt h j, h.chunksize) := by
  unfold Apart chunkAt
  rcases Nat.lt_or_gt_of_ne hij with hlt | hlt
  · have hm : (i + 1) * h.chunksize ≤ j * h.chunksize := Nat.mul_le_mul_right _ hlt
    rw [Nat.succ_mul] at hm
    exact .inl (by simp only; omega)
  · have hm : (j + 1) * h.chunksize ≤ i * h.chunksize := Nat.mul_le_mul_right _ hlt
    rw [Nat.succ_mul] at hm
    exact .inr (by simp only; omega)

namespace ZoneInv

theorem injective (hz : ZoneInv s z free) : Function.Injective (chunkAt (s.zone z)) :=
  hz.shape.injective

/-- What the zone is made of is as before. -/
theorem congr (hz : ZoneInv s z free)
    (hh : ∃ m n, s'.zone z = { s.zone z with magic := m, next := n })
    (hsize : s'.zoneSize = s.zoneSize)
    (hu : ∀ i < s.zonePageCnt, s'.memusage (z + i) = s.memusage (z + i))
    (hc : ∀ c ∈ free, s'.cNext c = s.cNext c)
    (hl : (chunksIn s' z).Perm (chunksIn s z)) : ZoneInv s' z free := by
  obtain ⟨m, n, hh⟩ := hh
  have hcnt : s'.zonePageCnt = s.zonePageCnt := congrArg (· / pageSize) hsize
  refine ⟨?_, fun i hi => ?_, ?_, ?_, ?_⟩
  · rw [hsize, hh]
    exact ⟨hz.shape.base, hz.shape.fits, hz.shape.index, hz.shape.size, hz.shape.pos, hz.shape.two,
      hz.shape.used⟩
  · rw [hcnt] at hi
    rw [hu i hi]
    exact hz.usage i hi
  · rw [hh]
    exact hz.chain.congr hc
  · rw [hh]
    exact hz.ledger.perm hl
  · rw [hh]
    exact hz.count

/-- A zone with all its chunks free has none out. -/
theorem chunksIn_nil (hz : ZoneInv s z free) (hf : (s.zone z).nfree = (s.zone z).nmax) :
    chunksIn s z = [] := by
  have hc := hz.count
  exact hz.ledger.all_free (by omega)

theorem mem_chunksIn (hz : ZoneInv s z free) {p : Nat} (hp : p ∈ chunksIn s z) :
    ∃ i, i ≤ (s.zone z).uindex ∧ p = chunkAt (s.zone z) i := by
  obtain ⟨i, hi, he⟩ := hz.ledger.mem.mp (.inr hp)
  exact ⟨i, Nat.lt_succ_iff.mp hi, he⟩

end ZoneInv

end Tudu.Slab
