import TuduOS.Mem.SlabLists

/-!
# `rt_malloc` of the slab heap

* `Inv.update`: one zone has changed.
* `Inv.allocFrom`, `Inv.newZone`, `Inv.large`: where a block comes from; `Inv.malloc`.
-/

namespace Tudu.Slab

open Chain Chunks Runs SlabHeap

variable {lo npages rounds n p z zi i size ptr : Nat} {l : List Run} {free : Nat → List Nat}
  {arr arr' : Nat → List Nat} {fz fz' fr : List Nat} {s s' : SlabHeap} {r : Run}

/-- A block that comes is a chunk of the zone that it begins in. -/
theorem chunksIn_perm {t : SlabHeap} (hs : t.zoneSize = s.zoneSize)
    (hl : t.live.Perm (r :: s.live)) : (chunksIn t z).Perm
      (if inZone s.zoneSize z r = true then r.1 :: chunksIn s z else chunksIn s z) := by
  have hp := (hl.filter (inZone s.zoneSize z)).map Prod.fst
  unfold chunksIn
  rw [hs]
  refine hp.trans ?_
  rw [List.filter_cons]
  split
  · exact List.Perm.refl _
  · exact List.Perm.refl _

/-- The heap but for `zone_array`. -/
structure SameHeap (s x : SlabHeap) : Prop where
  zone : x.zone = s.zone
  pages : x.pages = s.pages
  zones : x.zones = s.zones
  zoneSize : x.zoneSize = s.zoneSize
  zoneLimit : x.zoneLimit = s.zoneLimit
  memusage : x.memusage = s.memusage
  cNext : x.cNext = s.cNext
  live : x.live = s.live

namespace Inv

/-- One zone has changed, and perhaps a block that begins in it has come or gone. -/
theorem update (h : Inv lo npages l free arr fz s) (hpages : s'.pages = s.pages)
    (hzones : s'.zones = s.zones) (hsize : s'.zoneSize = s.zoneSize)
    (hlimit : s'.zoneLimit = s.zoneLimit) (husage : s'.memusage = s.memusage)
    (hother : ∀ x ∈ s.zones, x ≠ z → s'.zone x = s.zone x) (hz : ZoneInv s' z fr)
    (hnext : ∀ x ∈ s.zones, x ≠ z → ∀ c ∈ free x, s'.cNext c = s.cNext c)
    (hchunks : ∀ x ∈ s.zones, x ≠ z → (chunksIn s' x).Perm (chunksIn s x))
    (hplaced : ∀ r ∈ s'.live, Placed s' r) (hapart : s'.live.Pairwise Apart)
    (hlists : Lists arr' fz' s') : Inv lo npages l (Function.update free z fr) arr' fz' s' := by
  have hcnt : s'.zonePageCnt = s.zonePageCnt := congrArg (· / pageSize) hsize
  refine ⟨?_, ?_, fun x hx => ?_, ?_, fun x hx => ?_, hplaced, hapart, hlists⟩
  · unfold Conf
    rw [hsize, hlimit]
    exact h.conf
  · rw [hpages]
    exact h.heap
  · rw [hcnt, hpages]
    rw [hzones] at hx
    exact h.runs x hx
  · rw [hzones]
    exact h.nodup
  · rw [hzones] at hx
    by_cases he : x = z
    · subst he
      rw [Function.update_self]
      exact hz
    · rw [Function.update_of_ne he]
      exact (h.zone x hx).congr ⟨_, _, hother x hx he⟩ hsize (fun i _ => by rw [husage])
        (hnext x hx he) (hchunks x hx he)

/-- A chunk of one zone is in no other zone. -/
theorem chunk_inZone (h : Inv lo npages l free arr fz s) (hz : z ∈ s.zones)
    (hi : i < (s.zone z).nmax) {x k : Nat} (hx : x ∈ s.zones) :
    inZone s.zoneSize x (chunkAt (s.zone z) i, k) = true ↔ x = z := by
  have hs := (h.zone z hz).shape
  have hw := hs.within hi
  have hpos := hs.pos
  simp only [inZone, decide_eq_true_eq]
  constructor
  · intro hin
    by_contra hne
    have hap := apart_pages (h.run_apart (h.runs z hz) (h.runs x hx) (Ne.symm hne))
    rw [← h.conf.zoneSize.1] at hap
    simp only [Apart] at hap
    omega
  · rintro rfl
    omega

/-- A chunk that is not out goes to the caller. -/
theorem handChunk (h : Inv lo npages l free arr fz s) {x : SlabHeap} (hx : SameHeap s x)
    (hz : z ∈ s.zones) (hi : i < (s.zone z).nmax) (hno : chunkAt (s.zone z) i ∉ chunksIn s z)
    {g : SlabZone} (hshape : Shape s.zoneSize z g)
    (hsame : g.baseptr = (s.zone z).baseptr ∧ g.chunksize = (s.zone z).chunksize)
    (hused : (s.zone z).uindex ≤ g.uindex) (hiu : i ≤ g.uindex)
    (hchain : IsChain s.cNext g.freechunk fr)
    (hledger : Ledger (chunkAt (s.zone z)) (g.uindex + 1) fr
      (chunkAt (s.zone z) i :: chunksIn s z))
    (hcount : g.nfree + (g.uindex + 1) = g.nmax + fr.length)
    (hlists : Lists arr' fz' (x.setZone z g)) :
    Inv lo npages l (Function.update free z fr) arr' fz'
      ((x.setZone z g).hand (chunkAt (s.zone z) i) (s.zone z).chunksize) := by
  have hzz : (x.setZone z g).zone z = g := setZone_self
  have hne : ∀ q, q ≠ z → (x.setZone z g).zone q = s.zone q := fun q hq => by
    rw [setZone_ne hq, hx.zone]
  have hchunk : ∀ j, chunkAt g j = chunkAt (s.zone z) j := fun j => by
    unfold chunkAt
    rw [hsame.1, hsame.2]
  have hlive : ((x.setZone z g).hand (chunkAt (s.zone z) i) (s.zone z).chunksize).live =
      (chunkAt (s.zone z) i, (s.zone z).chunksize) :: s.live := congrArg (_ :: ·) hx.live
  have hperm : ∀ q, (chunksIn ((x.setZone z g).hand (chunkAt (s.zone z) i) (s.zone z).chunksize)
      q).Perm _ := fun q => chunksIn_perm hx.zoneSize (List.Perm.of_eq hlive)
  refine h.update hx.pages hx.zones hx.zoneSize hx.zoneLimit hx.memusage (fun q _ hq => hne q hq) ?_
    (fun q _ _ c _ => congrFun hx.cNext c) (fun q hq hqz => ?_) (fun r hr => ?_) ?_
    (hlists.congr rfl (fun _ _ => rfl) rfl rfl rfl)
  · have hp := hperm z
    rw [if_pos ((h.chunk_inZone hz hi hz).mpr rfl)] at hp
    refine ⟨?_, fun j hj => ?_, ?_, ?_, ?_⟩
    · show Shape x.zoneSize z ((x.setZone z g).zone z)
      rw [hx.zoneSize, hzz]
      exact hshape
    · show x.memusage (z + j) = _
      rw [hx.memusage]
      have hj' : j < x.zoneSize / pageSize := hj
      rw [hx.zoneSize] at hj'
      exact (h.zone z hz).usage j hj'
    · show IsChain x.cNext ((x.setZone z g).zone z).freechunk fr
      rw [hx.cNext, hzz]
      exact hchain
    · show Ledger (chunkAt ((x.setZone z g).zone z)) (((x.setZone z g).zone z).uindex + 1) fr _
      rw [hzz, funext hchunk]
      exact hledger.perm hp
    · show ((x.setZone z g).zone z).nfree + (((x.setZone z g).zone z).uindex + 1) =
        ((x.setZone z g).zone z).nmax + fr.length
      rw [hzz]
      exact hcount
  · have hp := hperm q
    rw [if_neg fun hin => hqz ((h.chunk_inZone hz hi hq).mp hin)] at hp
    exact hp
  · rw [hlive] at hr
    have hzs : x.zones = s.zones := hx.zones
    rcases List.mem_cons.mp hr with rfl | hr
    · refine .chunk z i (hzs ▸ hz) ?_ ?_
      · show i ≤ ((x.setZone z g).zone z).uindex
        rw [hzz]
        exact hiu
      · show _ = (chunkAt ((x.setZone z g).zone z) i, ((x.setZone z g).zone z).chunksize)
        rw [hzz, hchunk, hsame.2]
    · cases h.placed r hr with
      | chunk q j hq hj hrq =>
        refine .chunk q j (hzs ▸ hq) ?_ ?_
        · show j ≤ ((x.setZone z g).zone q).uindex
          by_cases he : q = z
          · subst he
            rw [hzz]
            exact Nat.le_trans hj hused
          · rw [hne q he]
            exact hj
        · show r = (chunkAt ((x.setZone z g).zone q) j, ((x.setZone z g).zone q).chunksize)
          by_cases he : q = z
          · subst he
            rw [hzz, hchunk, hsame.2]
            exact hrq
          · rw [hne q he]
            exact hrq
      | large p n hp hq hu hr =>
        have hps : x.pages = s.pages := hx.pages
        refine .large p n (hps ▸ hp) (hzs ▸ hq) ?_ hr
        exact (congrFun hx.memusage p).trans hu
  · rw [hlive]
    exact List.pairwise_cons.mpr ⟨fun t ht => h.chunk_off hz hi hno ht, h.apart⟩

end Inv

/-- A free chunk less; the last one of a zone takes it off its list. -/
theorem Lists.takeOne {rest : List Nat} {g : SlabZone} (h : Lists arr fz s) (ha : arr zi = z :: rest)
    (hi : g.zoneindex = (s.zone z).zoneindex) (hm : g.magic = (s.zone z).magic)
    (hf : g.nfree = (s.zone z).nfree - 1)
    (hn : g.next = if (s.zone z).nfree - 1 = 0 then none else (s.zone z).next) :
    ∃ arr', Lists arr' fz
      ((if (s.zone z).nfree - 1 = 0 then s.setArray zi (s.zone z).next else s).setZone z g) := by
  have hz : z ∈ arr zi := by
    rw [ha]
    exact List.mem_cons_self
  have hpos := ((h.mem zi z).mp hz).2.2.2
  by_cases h0 : (s.zone z).nfree - 1 = 0
  · rw [if_pos h0]
    exact ⟨_, h.unlinkHead ha (hf.trans h0) hm⟩
  · rw [if_neg h0] at hn ⊢
    refine ⟨arr, h.same rfl rfl rfl rfl (fun q _ => ?_) (fun q _ => ?_) (fun q _ => ?_)
      (fun q hq => ?_) fun q _ => ?_⟩
    · rw [nextZone_setZone, hn]
      exact congrFun (Function.update_eq_self z (nextZone s)) q
    · by_cases hq : q = z
      · subst hq
        rw [setZone_self, hi]
      · rw [setZone_ne hq]
    · by_cases hq : q = z
      · subst hq
        rw [setZone_self, hf]
        omega
      · rw [setZone_ne hq]
    · have hne : q ≠ z := fun he => h.not_mem_fz hz (he ▸ hq)
      rw [setZone_ne hne]
      exact (h.full q hq).2
    · by_cases hq : q = z
      · subst hq
        rw [setZone_self, hm]
      · rw [setZone_ne hq]

namespace Inv

/-- A zone of `zone_array[zi]` has a chunk. -/
theorem allocFrom (h : Inv lo npages l free arr fz s) {rest : List Nat} (ha : arr zi = z :: rest)
    (hsz : size = chunkSize zi) : ∃ ptr s' free' arr', s.allocFrom zi size z = some (ptr, s') ∧
      Inv lo npages l free' arr' fz s' ∧ s'.live = (ptr, size) :: s.live ∧ s'.zones = s.zones ∧
      s'.zoneSize = s.zoneSize := by
  have hz : z ∈ arr zi := by
    rw [ha]
    exact List.mem_cons_self
  obtain ⟨hzm, -, hidx, hpos⟩ := (h.lists.mem zi z).mp hz
  have hzi := h.zone z hzm
  have hs := hzi.shape
  have hcs : size = (s.zone z).chunksize := by rw [hsz, hs.size, hidx]
  have hcount := hzi.count
  have hused := hs.used
  have hX : SameHeap s
      (if (s.zone z).nfree - 1 = 0 then s.setArray zi (s.zone z).next else s) := by
    split <;> exact ⟨rfl, rfl, rfl, rfl, rfl, rfl, rfl, rfl⟩
  by_cases hu : (s.zone z).uindex + 1 ≠ (s.zone z).nmax
  · -- a chunk that was never used
    obtain ⟨g, hg⟩ : ∃ g : SlabZone, g = { s.zone z with
        nfree := (s.zone z).nfree - 1
        next := if (s.zone z).nfree - 1 = 0 then none else (s.zone z).next
        uindex := (s.zone z).uindex + 1 } := ⟨_, rfl⟩
    have hgn : g.nfree = (s.zone z).nfree - 1 ∧ g.nmax = (s.zone z).nmax ∧
        g.uindex = (s.zone z).uindex + 1 := by
      rw [hg]
      exact ⟨rfl, rfl, rfl⟩
    obtain ⟨arr', hlists⟩ := h.lists.takeOne (g := g) ha (by rw [hg]) (by rw [hg]) (by rw [hg])
      (by rw [hg])
    have hfresh := (hzi.ledger.fresh hs.injective (Nat.le_refl _)).2
    refine ⟨chunkAt (s.zone z) ((s.zone z).uindex + 1), _, Function.update free z (free z), arr', ?_,
      h.handChunk (g := g) hX hzm (by omega) hfresh ?_ ?_ (by omega) (by omega) ?_ ?_
        ?_ hlists, ?_, hX.zones, hX.zoneSize⟩
    · unfold SlabHeap.allocFrom
      simp only
      rw [if_pos hpos, if_pos hu, chunkAt, hcs, hg]
    · rw [hg]
      exact ⟨hs.base, hs.fits, hs.index, hs.size, hs.pos, hs.two, by simp only; omega⟩
    · rw [hg]
      exact ⟨rfl, rfl⟩
    · rw [hg]
      exact hzi.chain
    · rw [hg]
      exact hzi.ledger.bump
    · omega
    · rw [hcs]
      exact congrArg (_ :: ·) hX.live
  · -- the first one of the free list
    have hne : free z ≠ [] := fun he => by
      rw [he, List.length_nil] at hcount
      omega
    obtain ⟨c, rest', hc⟩ := List.exists_cons_of_ne_nil hne
    have hledger := hzi.ledger
    have hchain := hzi.chain
    rw [hc] at hledger hchain hcount
    rw [List.length_cons] at hcount
    obtain ⟨i, hi, rfl⟩ := hledger.mem.mp (.inl List.mem_cons_self)
    obtain ⟨g, hg⟩ : ∃ g : SlabZone, g = { s.zone z with
        nfree := (s.zone z).nfree - 1
        next := if (s.zone z).nfree - 1 = 0 then none else (s.zone z).next
        freechunk := s.cNext (chunkAt (s.zone z) i) } := ⟨_, rfl⟩
    have hgn : g.nfree = (s.zone z).nfree - 1 ∧ g.nmax = (s.zone z).nmax ∧
        g.uindex = (s.zone z).uindex := by
      rw [hg]
      exact ⟨rfl, rfl, rfl⟩
    obtain ⟨arr', hlists⟩ := h.lists.takeOne (g := g) ha (by rw [hg]) (by rw [hg]) (by rw [hg])
      (by rw [hg])
    refine ⟨chunkAt (s.zone z) i, _, Function.update free z rest', arr', ?_,
      h.handChunk (g := g) hX hzm (by omega) (hledger.free_head hs.injective).2 ?_ ?_
        (by omega) (by omega) ?_ ?_ ?_ hlists, ?_, hX.zones, hX.zoneSize⟩
    · unfold SlabHeap.allocFrom
      simp only
      rw [if_pos hpos, if_neg hu, hchain.1, hcs, hg, ← hX.cNext]
      rfl
    · rw [hg]
      exact ⟨hs.base, hs.fits, hs.index, hs.size, hs.pos, hs.two, hs.used⟩
    · rw [hg]
      exact ⟨rfl, rfl⟩
    · rw [hg]
      exact hchain.tail
    · rw [hg]
      exact hledger.pop
    · omega
    · rw [hcs]
      exact congrArg (_ :: ·) hX.live

/-- No block is in spare pages. -/
theorem spare_nil (h : Inv lo npages l free arr fz s) (hs : Spare s z s.zonePageCnt) :
    chunksIn s z = [] := by
  rw [chunksIn, List.map_eq_nil_iff, List.filter_eq_nil_iff]
  intro r hr hin
  have hap := hs.off r hr
  have hpos := h.live_pos hr
  rw [← h.conf.zoneSize.1] at hap
  simp only [inZone, decide_eq_true_eq, Apart] at hin hap
  omega

/-- Spare pages become a zone, whose first chunk is taken. -/
theorem newZone (h : Inv lo npages l free arr fz s) (hs : Spare s z s.zonePageCnt)
    (hu : ∀ i < s.zonePageCnt, s.memusage (z + i) = ⟨.small, i⟩) (hzi : zi < nzones)
    (hsz : size = chunkSize zi) (h8 : 8 ≤ size) (h4 : 4 * size ≤ s.zoneSize) :
    Inv lo npages l (Function.update free z []) (Function.update arr zi (z :: arr zi)) fz
      (s.newZone zi size z).2 := by
  obtain ⟨hzs, hmin, -⟩ := h.conf.zoneSize
  obtain ⟨hoff, hoff'⟩ := zoneOffset_spec h8
  obtain ⟨htwo, hfits⟩ := nmax_spec h8 hmin h4
  obtain ⟨g, hg⟩ : ∃ g : SlabZone, g = { magic := slabMagic
                                         nfree := (s.zoneSize - zoneOffset size) / size - 1
                                         nmax := (s.zoneSize - zoneOffset size) / size
                                         next := s.zoneArray zi
                                         baseptr := z * pageSize + zoneOffset size
                                         uindex := 0, chunksize := size, zoneindex := zi
                                         freechunk := none } := ⟨_, rfl⟩
  have hgs : Shape s.zoneSize z g := by
    rw [hg]
    exact ⟨Nat.add_le_add_left hoff _, by simp only; omega, hzi, hsz, h8, htwo,
      by simp only; omega⟩
  have hg0 : chunkAt g 0 = z * pageSize + zoneOffset size := by
    rw [hg, chunkAt, Nat.zero_mul, Nat.add_zero]
  have hgf : g.nfree = (s.zoneSize - zoneOffset size) / size - 1 ∧
      g.nmax = (s.zoneSize - zoneOffset size) / size ∧ g.uindex = 0 ∧ g.chunksize = size := by
    rw [hg]
    exact ⟨rfl, rfl, rfl, rfl⟩
  have hw := hgs.within (i := 0) (Nat.lt_of_le_of_lt (Nat.zero_le _) hgs.used)
  rw [hg0, hgf.2.2.2] at hw
  have hlists := h.lists.new (g := g) hs.zone (by rw [hg]) (by omega) (by rw [hg])
    (by rw [hg])
  have hdef : (s.newZone zi size z).2 =
      { ((s.setZone z g).setArray zi (some z)).hand (z * pageSize + zoneOffset size) size with
        zones := z :: s.zones } := by
    rw [hg]
    rfl
  rw [hdef]
  have hzz : (s.setZone z g).zone z = g := setZone_self
  have hne : ∀ x ∈ s.zones, x ≠ z ∧ (s.setZone z g).zone x = s.zone x := fun x hx => by
    have hxz : x ≠ z := fun he => hs.zone (he ▸ hx)
    exact ⟨hxz, setZone_ne hxz⟩
  -- the chunk, in the zone and in no other one
  have hin : inZone s.zoneSize z (z * pageSize + zoneOffset size, size) = true := by
    simp only [inZone, decide_eq_true_eq]
    omega
  have hout : ∀ x ∈ s.zones, inZone s.zoneSize x (z * pageSize + zoneOffset size, size) = false :=
    fun x hx => by
      have hap := apart_pages (h.run_apart hs.out (h.runs x hx) (hne x hx).1.symm)
      rw [← hzs] at hap
      simp only [inZone, decide_eq_false_iff_not, Apart] at hap ⊢
      omega
  have hperm : ∀ q, (chunksIn { ((s.setZone z g).setArray zi (some z)).hand
      (z * pageSize + zoneOffset size) size with zones := z :: s.zones } q).Perm _ :=
    fun q => chunksIn_perm (r := (z * pageSize + zoneOffset size, size)) (s := s) rfl
      (List.Perm.refl _)
  refine ⟨h.conf, h.heap, fun x hx => ?_, List.nodup_cons.mpr ⟨hs.zone, h.nodup⟩, fun x hx => ?_,
    fun r hr => ?_, List.pairwise_cons.mpr ⟨fun t ht => ?_, h.apart⟩,
    hlists.congr rfl (fun _ _ => rfl) rfl rfl rfl⟩
  · rcases List.mem_cons.mp hx with rfl | hx
    · exact hs.out
    · exact h.runs x hx
  · rcases List.mem_cons.mp hx with rfl | hx
    · rw [Function.update_self]
      have hp := hperm x
      rw [if_pos hin, h.spare_nil hs] at hp
      refine ⟨?_, hu, ?_, ?_, ?_⟩
      · show Shape s.zoneSize x ((s.setZone x g).zone x)
        rw [hzz]
        exact hgs
      · show IsChain s.cNext ((s.setZone x g).zone x).freechunk []
        rw [hzz, hg]
        rfl
      · show Ledger (chunkAt ((s.setZone x g).zone x)) (((s.setZone x g).zone x).uindex + 1) [] _
        rw [hzz, hgf.2.2.1]
        refine Ledger.perm ?_ hp
        rw [← hg0]
        exact Ledger.bump (List.Perm.refl [])
      · show ((s.setZone x g).zone x).nfree + (((s.setZone x g).zone x).uindex + 1) =
          ((s.setZone x g).zone x).nmax + 0
        rw [hzz]
        omega
    · obtain ⟨hxz, hzone⟩ := hne x hx
      have hp := hperm x
      rw [hout x hx] at hp
      rw [Function.update_of_ne hxz]
      exact (h.zone x hx).congr ⟨_, _, hzone⟩ rfl (fun _ _ => rfl) (fun _ _ => rfl) hp
  · rcases List.mem_cons.mp hr with rfl | hr
    · refine .chunk z 0 List.mem_cons_self (Nat.zero_le _) ?_
      show _ = (chunkAt ((s.setZone z g).zone z) 0, ((s.setZone z g).zone z).chunksize)
      rw [hzz, hg0, hgf.2.2.2]
    · cases h.placed r hr with
      | chunk x i hx hi hrx =>
        refine .chunk x i (List.mem_cons_of_mem _ hx) ?_ ?_
        · show i ≤ ((s.setZone z g).zone x).uindex
          rw [(hne x hx).2]
          exact hi
        · show r = (chunkAt ((s.setZone z g).zone x) i, ((s.setZone z g).zone x).chunksize)
          rw [(hne x hx).2]
          exact hrx
      | large p n hp hpz hpu hrp =>
        have hzp := h.spare_ne hs hp (hrp ▸ hr)
        exact .large p n hp (fun hm => (List.mem_cons.mp hm).elim (Ne.symm hzp) hpz) hpu hrp
  · have hap := hs.off t ht
    rw [← hzs] at hap
    refine hap.of_within ?_ (within_self t)
    simp only [Within]
    omega

/-- Spare pages go to the caller. -/
theorem large (h : Inv lo npages l free arr fz s) (hs : Spare s p n) :
    Inv lo npages l free arr fz { s with
      memusage := Function.update s.memusage p ⟨.large, n⟩
      live := (p * pageSize, n * pageSize) :: s.live } := by
  have hn := h.heap.pos _ hs.out
  have hout : ∀ a m, (a, m) ∈ s.pages.live → p ≠ a → ∀ i < m, p ≠ a + i := fun a m ha hne i hi => by
    have hap := h.run_apart hs.out ha hne
    simp only [Apart] at hap hn
    omega
  have hkeep : ∀ a, p ≠ a → Function.update s.memusage p ⟨.large, n⟩ a = s.memusage a :=
    fun a ha => Function.update_of_ne (Ne.symm ha) ..
  have h1 := h.setMemusage (u := Function.update s.memusage p ⟨.large, n⟩)
    (fun z hz i hi => hkeep _ (hout z _ (h.runs z hz) (fun he => hs.zone (he ▸ hz)) i hi))
    fun q m hq hr => hkeep _ (h.spare_ne hs hq hr)
  have hno : ∀ z ∈ s.zones, inZone s.zoneSize z (p * pageSize, n * pageSize) = false :=
    fun z hz => by
      have hap := apart_pages (h.run_apart hs.out (h.runs z hz) fun he => hs.zone (he ▸ hz))
      rw [← h.conf.zoneSize.1] at hap
      refine Bool.eq_false_iff.mpr fun hin => ?_
      have hpos : 0 < n * pageSize := Nat.mul_pos hn (by decide)
      simp only [inZone, decide_eq_true_eq] at hin
      simp only [Apart] at hap
      omega
  refine ⟨h1.conf, h1.heap, h1.runs, h1.nodup, fun z hz => ?_, fun r hr => ?_,
    List.pairwise_cons.mpr ⟨fun t ht => hs.off t ht, h1.apart⟩,
    h1.lists.congr rfl (fun _ _ => rfl) rfl rfl rfl⟩
  · have hp := chunksIn_perm (z := z) (s := s) (r := (p * pageSize, n * pageSize))
      (t := { s with
        memusage := Function.update s.memusage p ⟨.large, n⟩
        live := (p * pageSize, n * pageSize) :: s.live }) rfl (List.Perm.refl _)
    rw [hno z hz] at hp
    exact (h1.zone z hz).congr ⟨_, _, rfl⟩ rfl (fun _ _ => rfl) (fun _ _ => rfl) hp
  · rcases List.mem_cons.mp hr with rfl | hr
    · exact .large p n hs.out hs.zone (Function.update_self ..) rfl
    · cases h1.placed r hr with
      | chunk z i hz hi hr => exact .chunk z i hz hi hr
      | large a m ha hz hu hr => exact .large a m ha hz hu hr

/-- A chunk that is out is one of its zone. -/
theorem mem_chunksIn (h : Inv lo npages l free arr fz s) (hz : z ∈ s.zones)
    (hi : i ≤ (s.zone z).uindex) (hr : (chunkAt (s.zone z) i, (s.zone z).chunksize) ∈ s.live) :
    chunkAt (s.zone z) i ∈ chunksIn s z := by
  have hlt := Nat.lt_of_le_of_lt hi (h.zone z hz).shape.used
  exact List.mem_map.mpr ⟨_, List.mem_filter.mpr ⟨hr, (h.chunk_inZone hz hlt hz).mpr rfl⟩, rfl⟩

/-- No block is in a free zone. -/
theorem free_off (h : Inv lo npages l free arr fz s) (hz : z ∈ fz) (hr : r ∈ s.live) :
    Apart (z * pageSize, s.zoneSize) r := by
  obtain ⟨hzm, hfull⟩ := h.lists.full z hz
  have hnil := (h.zone z hzm).chunksIn_nil hfull
  rcases h.off_zone hzm hr with ⟨i, hi, rfl⟩ | hap
  · have hm := h.mem_chunksIn hzm hi hr
    rw [hnil] at hm
    cases hm
  · exact hap

/-- The first free zone is taken, and its pages are spare. -/
theorem pop (h : Inv lo npages l free arr (z :: fz) s) {t : SlabHeap} (ht : t = { s with
      zoneFree := (s.zone z).next
      zoneFreeCnt := s.zoneFreeCnt - 1
      zones := s.zones.erase z }) :
    Inv lo npages l free arr fz t ∧ Spare t z t.zonePageCnt ∧
      ∀ i < t.zonePageCnt, t.memusage (z + i) = ⟨.small, i⟩ := by
  subst ht
  have hzf : z ∈ z :: fz := List.mem_cons_self
  obtain ⟨hzm, hfull⟩ := h.lists.full z hzf
  have hsub : ∀ x ∈ s.zones.erase z, x ∈ s.zones := fun x hx => List.mem_of_mem_erase hx
  refine ⟨⟨h.conf, h.heap, fun x hx => h.runs x (hsub x hx), h.nodup.erase z, fun x hx => ?_,
    fun r hr => ?_, h.apart, h.lists.pop h.nodup⟩, ⟨h.runs z hzm, h.nodup.not_mem_erase,
    fun r hr => ?_⟩, (h.zone z hzm).usage⟩
  · exact (h.zone x (hsub x hx)).congr ⟨_, _, rfl⟩ rfl (fun _ _ => rfl) (fun _ _ => rfl)
      (List.Perm.refl _)
  · cases h.placed r hr with
    | chunk x i hx hi hrx =>
      refine .chunk x i (h.nodup.mem_erase_iff.mpr ⟨?_, hx⟩) hi hrx
      rintro rfl
      have hm := h.mem_chunksIn hx hi (hrx ▸ hr)
      rw [(h.zone x hx).chunksIn_nil hfull] at hm
      cases hm
    | large p n hp hpz hpu hrp => exact .large p n hp (fun hm => hpz (hsub p hm)) hpu hrp
  · have hap := h.free_off hzf hr
    rw [h.conf.zoneSize.1] at hap
    exact hap

end Inv

/-- The heap is in order. -/
def Good (lo npages : Nat) (s : SlabHeap) : Prop :=
  ∃ l free arr fz, Inv lo npages l free arr fz s

/-- What a call of `rt_malloc` does: `NULL`, or a block of at least the size. -/
structure Malloced (lo npages size : Nat) (s : SlabHeap) (ptr : Nat) (s' : SlabHeap) : Prop where
  good : Good lo npages s'
  zones : ∀ z ∈ s.zones, z ∈ s'.zones
  zoneSize : s'.zoneSize = s.zoneSize
  live : ptr = 0 ∧ s'.live = s.live ∨ ∃ len, size ≤ len ∧ s'.live = (ptr, len) :: s.live

theorem setUsage_usage (hi : i < s.zonePageCnt) :
    (s.setUsage z true).memusage (z + i) = ⟨.small, i⟩ := by
  have hin : z ≤ z + i ∧ z + i < z + s.zonePageCnt := by omega
  simp only [SlabHeap.setUsage, if_pos hin, Nat.add_sub_cancel_left]
  rfl

theorem Inv.allocZone (h : Inv lo npages l free arr fz s) (hr : npages < rounds) (hzi : zi < nzones)
    (hsz : size = chunkSize zi) (h8 : 8 ≤ size) (h4 : 4 * size ≤ s.zoneSize) :
    ∃ ptr s', s.allocZone rounds zi size = some (ptr, s') ∧ Malloced lo npages size s ptr s' := by
  have hfrees := h.lists.frees
  unfold SlabHeap.allocZone
  cases hzf : s.zoneFree with
  | some z =>
    rw [hzf] at hfrees
    obtain ⟨fz', rfl, -⟩ := hfrees.eq_cons
    obtain ⟨hinv, hspare, husage⟩ := h.pop rfl
    refine ⟨_, _, rfl, ⟨⟨l, _, _, fz', hinv.newZone hspare husage hzi hsz h8 h4⟩, fun x hx => ?_,
      rfl, .inr ⟨size, Nat.le_refl _, rfl⟩⟩⟩
    show x ∈ z :: s.zones.erase z
    by_cases he : x = z
    · rw [he]
      exact List.mem_cons_self
    · exact List.mem_cons_of_mem _ ((List.mem_erase_of_ne he).mpr hx)
  | none =>
    simp only
    rcases h.pageAlloc hr s.zonePageCnt with ha | ⟨z, s1, l', ha, hinv, hspare, pages, rfl⟩
    · rw [ha]
      exact ⟨0, s, rfl, ⟨l, free, arr, fz, h⟩, fun _ hx => hx, rfl, .inl ⟨rfl, rfl⟩⟩
    · rw [ha]
      have hinv' := hinv.setUsage hspare true
      have hspare' : Spare (SlabHeap.setUsage { s with pages := pages } z true) z s.zonePageCnt :=
        ⟨hspare.out, hspare.zone, hspare.off⟩
      refine ⟨_, _, rfl, ⟨⟨l', _, _, fz, hinv'.newZone hspare' (fun i hi => setUsage_usage hi) hzi
        hsz h8 h4⟩, fun x hx => List.mem_cons_of_mem _ hx, rfl, .inr ⟨size, Nat.le_refl _, rfl⟩⟩⟩

/-- **`rt_malloc`** keeps the heap in order. -/
theorem Inv.malloc (h : Inv lo npages l free arr fz s) (hr : npages < rounds)
    (h32 : size < 2 ^ 32) :
    ∃ ptr s', s.rtMalloc rounds size = some (ptr, s') ∧ Malloced lo npages size s ptr s' := by
  have hgood : Good lo npages s := ⟨l, free, arr, fz, h⟩
  unfold SlabHeap.rtMalloc
  by_cases h0 : size = 0
  · rw [if_pos h0]
    exact ⟨0, s, rfl, hgood, fun _ hz => hz, rfl, .inl ⟨rfl, rfl⟩⟩
  · rw [if_neg h0]
    by_cases hbig : size ≥ s.zoneLimit
    · rw [if_pos hbig]
      simp only
      rcases h.pageAlloc hr (alignPage size / pageSize) with
        ha | ⟨p, s1, l', ha, hinv, hspare, pages, rfl⟩
      · rw [ha]
        exact ⟨0, s, rfl, hgood, fun _ hz => hz, rfl, .inl ⟨rfl, rfl⟩⟩
      · rw [ha]
        have hn := hinv.heap.pos _ hspare.out
        have hal : alignPage size / pageSize * pageSize = alignPage size :=
          Nat.div_mul_cancel (Nat.dvd_mul_left _ _)
        have hinv' := hinv.large hspare
        rw [hal] at hinv'
        refine ⟨_, _, rfl, ⟨⟨l', free, arr, fz, hinv'⟩, fun _ hz => hz, rfl,
          .inr ⟨alignPage size, ?_, rfl⟩⟩⟩
        -- a size that is wrapped has no pages
        simp only [alignPage, pageSize] at hn ⊢
        omega
    · rw [if_neg hbig]
      have hconf := h.conf
      have hlt : size < 16384 ∧ (s.zoneSize = 32768 → size < 8192) := by
        unfold Conf at hconf
        omega
      have hround := zoneindex_spec (Nat.pos_of_ne_zero h0) hlt.1
      simp only
      rw [if_pos hround.index]
      have hle := hround.le
      cases hza : s.zoneArray (zoneindex size).1 with
      | some z =>
        have hch := h.lists.arrays (zoneindex size).1
        rw [hza] at hch
        obtain ⟨rest, ha, -⟩ := hch.eq_cons
        obtain ⟨ptr, s', free', arr', hs, hinv, hlive, hzones, hzs⟩ :=
          h.allocFrom ha hround.size
        refine ⟨ptr, s', hs, ⟨⟨l, free', arr', fz, hinv⟩, fun z hz => ?_, hzs,
          .inr ⟨_, hle, hlive⟩⟩⟩
        rw [hzones]
        exact hz
      | none =>
        have h4 : 4 * (zoneindex size).2 ≤ s.zoneSize := by
          have h1 := hround.small
          have h2 := hround.large
          unfold Conf at hconf
          omega
        obtain ⟨ptr, s', hs, hm⟩ := h.allocZone hr hround.index hround.size hround.pos h4
        refine ⟨ptr, s', hs, hm.good, hm.zones, hm.zoneSize, hm.live.imp_right ?_⟩
        rintro ⟨len, hlen, hl⟩
        exact ⟨len, Nat.le_trans hle hlen, hl⟩

end Tudu.Slab
