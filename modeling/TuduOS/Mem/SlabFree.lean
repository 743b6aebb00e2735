import TuduOS.Mem.SlabMalloc

/-!
# `rt_free` of the slab heap

* `Inv.pushChunk`: a chunk goes back to its zone.
* `Inv.retire`, `Inv.release`: a zone all of whose chunks are free goes to the list of free zones,
  and the first one of that list to the page allocator.
* `Inv.free`: `rt_free` of a block.
-/

namespace Tudu.Slab

open Chain Chunks Runs SlabHeap

variable {lo npages rounds n p z zi i ptr : Nat} {l : List Run} {free : Nat → List Nat}
  {arr arr' : Nat → List Nat} {fz fz' : List Nat} {s s' : SlabHeap} {r : Run}

namespace Inv

/-- The block of a pointer is the one that goes. -/
theorem live_perm (h : Inv lo npages l free arr fz s) (hr : r ∈ s.live) :
    s.live.Perm (r :: (s.forget r.1).live) := by
  obtain ⟨a, l1, l2, -, ha, hl, he⟩ := List.exists_of_eraseP (p := fun t => t.1 == r.1) hr
    (beq_self_eq_true r.1)
  have har : a = r := by
    by_contra hne
    have hm : a ∈ s.live := by
      rw [hl]
      simp
    have hap := h.apart.forall hm hr hne
    have h1 := h.live_pos hm
    have h2 := h.live_pos hr
    have heq : a.1 = r.1 := beq_iff_eq.mp ha
    simp only [Apart] at hap
    omega
  have hf : (s.forget r.1).live = l1 ++ l2 := he
  rw [hf, hl, har]
  exact List.perm_middle

/-- The blocks that stay are apart from the one that goes. -/
theorem forget_apart (h : Inv lo npages l free arr fz s) (hr : r ∈ s.live) :
    (∀ t ∈ (s.forget r.1).live, t ∈ s.live ∧ Apart r t) ∧ (s.forget r.1).live.Pairwise Apart := by
  have hp := h.live_perm hr
  have hpw := (hp.pairwise_iff fun h => Or.symm h).mp h.apart
  obtain ⟨h1, h2⟩ := List.pairwise_cons.mp hpw
  exact ⟨fun t ht => ⟨hp.mem_iff.mpr (List.mem_cons_of_mem _ ht), h1 t ht⟩, h2⟩

/-- The pages of a block of its own are spare without it. -/
theorem forgetLarge (h : Inv lo npages l free arr fz s) (hp : (p, n) ∈ s.pages.live)
    (hz : p ∉ s.zones) (hr : (p * pageSize, n * pageSize) ∈ s.live) (u : Memusage) :
    Inv lo npages l free arr fz { s.forget (p * pageSize) with
      memusage := Function.update s.memusage p u } ∧
    Spare { s.forget (p * pageSize) with memusage := Function.update s.memusage p u } p n := by
  have hn := h.heap.pos _ hp
  have hperm := h.live_perm hr
  obtain ⟨hstay, hpw⟩ := h.forget_apart hr
  have hout : ∀ a m, (a, m) ∈ s.pages.live → p ≠ a → ∀ i < m,
      Function.update s.memusage p u (a + i) = s.memusage (a + i) := fun a m ha hne i hi => by
    have hap := h.run_apart hp ha hne
    simp only [Apart] at hap hn
    exact Function.update_of_ne (by omega) ..
  refine ⟨⟨h.conf, h.heap, h.runs, h.nodup, fun z hz' => ?_, fun t ht => ?_, hpw,
    h.lists.congr rfl (fun _ _ => rfl) rfl rfl rfl⟩, hp, hz, fun t ht => (hstay t ht).2⟩
  · have hpz : p ≠ z := fun he => hz (he ▸ hz')
    refine (h.zone z hz').congr ⟨_, _, rfl⟩ rfl (fun i hi => hout z _ (h.runs z hz') hpz i hi)
      (fun _ _ => rfl) ?_
    have hc := chunksIn_perm (z := z) (t := s) (s := s.forget (p * pageSize)) rfl hperm
    have hap := apart_pages (h.run_apart hp (h.runs z hz') hpz)
    rw [← h.conf.zoneSize.1] at hap
    rw [if_neg] at hc
    · exact hc.symm
    · intro hin
      have hpos : 0 < n * pageSize := Nat.mul_pos hn (by decide)
      have hin' : z * pageSize ≤ p * pageSize ∧ p * pageSize < z * pageSize + s.zoneSize :=
        of_decide_eq_true hin
      simp only [Apart] at hap
      omega
  · obtain ⟨htl, hap⟩ := hstay t ht
    cases h.placed t htl with
    | chunk z i hz hi ht => exact .chunk z i hz hi ht
    | large a m ha haz hu hta =>
      refine .large a m ha haz ?_ hta
      have hpa : p ≠ a := by
        rintro rfl
        have h1 := h.heap.pos _ ha
        rw [hta] at hap
        simp only [Apart, pageSize] at hap hn h1
        omega
      rw [← hu]
      exact hout a m ha hpa 0 (h.heap.pos _ ha)

/-- The zone of a chunk has one more free chunk, and is on its list. -/
theorem pushChunk (h : Inv lo npages l free arr fz s) (hz : z ∈ s.zones)
    (hi : i ≤ (s.zone z).uindex)
    (hr : (chunkAt (s.zone z) i, (s.zone z).chunksize) ∈ s.live) :
    ∃ arr', Inv lo npages l (Function.update free z (chunkAt (s.zone z) i :: free z)) arr' fz
      (s.pushChunk z (chunkAt (s.zone z) i)) := by
  have hzi := h.zone z hz
  have hs := hzi.shape
  have hlt := Nat.lt_of_le_of_lt hi hs.used
  have hperm := h.live_perm hr
  obtain ⟨hstay, hpw⟩ := h.forget_apart hr
  have hchunk := h.mem_chunksIn hz hi hr
  have hnf : chunkAt (s.zone z) i ∉ free z := hzi.ledger.not_free hs.injective hchunk
  have hfz : z ∉ fz := fun hf => by
    rw [hzi.chunksIn_nil (h.lists.full z hf).2] at hchunk
    cases hchunk
  -- the header of the zone, with its link in one case
  obtain ⟨g, hg, arr', hlists, hdef⟩ : ∃ g : SlabZone,
      (∃ v, g = { s.zone z with
        freechunk := some (chunkAt (s.zone z) i), nfree := (s.zone z).nfree + 1, next := v }) ∧
      ∃ arr', Lists arr' fz (s.pushChunk z (chunkAt (s.zone z) i)) ∧
        (s.pushChunk z (chunkAt (s.zone z) i)).zone = Function.update s.zone z g := by
    unfold SlabHeap.pushChunk
    simp only
    split
    · next h0 =>
      have hl := h.lists.linkHead (g := { s.zone z with
          freechunk := some (chunkAt (s.zone z) i)
          nfree := (s.zone z).nfree + 1
          next := s.zoneArray (s.zone z).zoneindex }) hz hfz h0 rfl rfl (Nat.succ_pos _) rfl rfl
      exact ⟨_, ⟨_, rfl⟩, _, hl.congr rfl (fun _ _ => rfl) rfl rfl rfl, rfl⟩
    · next h0 =>
      refine ⟨_, ⟨_, rfl⟩, arr, h.lists.same rfl rfl rfl rfl (fun q _ => ?_) (fun q _ => ?_)
        (fun q _ => ?_) (fun q hq => ?_) (fun q _ => ?_), rfl⟩
      · by_cases hq : q = z
        · subst hq
          unfold nextZone
          rw [setZone_self]
        · unfold nextZone
          rw [setZone_ne hq]
          rfl
      · by_cases hq : q = z
        · subst hq
          rw [setZone_self]
        · rw [setZone_ne hq]
          rfl
      · by_cases hq : q = z
        · subst hq
          rw [setZone_self]
          exact iff_of_true (Nat.succ_pos _) (Nat.pos_of_ne_zero h0)
        · rw [setZone_ne hq]
          exact Iff.rfl
      · have hne : q ≠ z := fun he => hfz (he ▸ hq)
        rw [setZone_ne hne]
        exact (h.lists.full q hq).2
      · by_cases hq : q = z
        · subst hq
          rw [setZone_self]
        · rw [setZone_ne hq]
          rfl
  obtain ⟨v, hg⟩ := hg
  have hzz : (s.pushChunk z (chunkAt (s.zone z) i)).zone z = g := by
    rw [hdef, Function.update_self]
  have hne : ∀ q, q ≠ z → (s.pushChunk z (chunkAt (s.zone z) i)).zone q = s.zone q :=
    fun q hq => by rw [hdef, Function.update_of_ne hq]
  obtain ⟨hpages, hzones, hsize, hlimit, husage, hnext, hlive⟩ :
      (s.pushChunk z (chunkAt (s.zone z) i)).pages = s.pages ∧
      (s.pushChunk z (chunkAt (s.zone z) i)).zones = s.zones ∧
      (s.pushChunk z (chunkAt (s.zone z) i)).zoneSize = s.zoneSize ∧
      (s.pushChunk z (chunkAt (s.zone z) i)).zoneLimit = s.zoneLimit ∧
      (s.pushChunk z (chunkAt (s.zone z) i)).memusage = s.memusage ∧
      (s.pushChunk z (chunkAt (s.zone z) i)).cNext =
        Function.update s.cNext (chunkAt (s.zone z) i) (s.zone z).freechunk ∧
      (s.pushChunk z (chunkAt (s.zone z) i)).live = (s.forget (chunkAt (s.zone z) i)).live := by
    unfold SlabHeap.pushChunk
    simp only
    split <;> exact ⟨rfl, rfl, rfl, rfl, rfl, rfl, rfl⟩
  have hback : s.live.Perm ((chunkAt (s.zone z) i, (s.zone z).chunksize) ::
      (s.pushChunk z (chunkAt (s.zone z) i)).live) := by
    rw [hlive]
    exact hperm
  have hin := fun q (hq : q ∈ s.zones) =>
    h.chunk_inZone hz hlt hq (k := (s.zone z).chunksize)
  refine ⟨arr', h.update hpages hzones hsize hlimit husage (fun q _ hq => hne q hq) ?_
    (fun q hq hqz c hc => ?_) (fun q hq hqz => ?_) (fun t ht => ?_) ?_ hlists⟩
  · have hc := chunksIn_perm (z := z) hsize.symm hback
    rw [hsize, if_pos ((hin z hz).mpr rfl)] at hc
    have hcount := hzi.count
    refine ⟨?_, fun j hj => ?_, ?_, ?_, ?_⟩
    · rw [hsize, hzz, hg]
      exact ⟨hs.base, hs.fits, hs.index, hs.size, hs.pos, hs.two, hs.used⟩
    · rw [husage]
      rw [zonePageCnt, hsize] at hj
      exact hzi.usage j hj
    · rw [hnext, hzz, hg]
      exact hzi.chain.cons hnf
    · rw [hzz, hg]
      exact (hzi.ledger.perm hc.symm).push
    · rw [hzz, hg, List.length_cons]
      simp only
      omega
  · rw [hnext]
    refine Function.update_of_ne ?_ ..
    rintro rfl
    obtain ⟨j, hj, he⟩ := (h.zone q hq).ledger.mem.mp (.inl hc)
    have hjq := h.chunk_inZone hq (Nat.lt_of_lt_of_le hj (h.zone q hq).shape.used) hz
      (k := (s.zone z).chunksize)
    rw [← he] at hjq
    exact hqz (hjq.mp ((hin z hz).mpr rfl)).symm
  · have hc := chunksIn_perm (z := q) hsize.symm hback
    rw [hsize, if_neg fun hm => hqz ((hin q hq).mp hm)] at hc
    exact hc.symm
  · rw [hlive] at ht
    have hsame : chunkAt g = chunkAt (s.zone z) ∧ g.chunksize = (s.zone z).chunksize ∧
        g.uindex = (s.zone z).uindex := by
      rw [hg]
      exact ⟨rfl, rfl, rfl⟩
    cases h.placed t (hstay t ht).1 with
    | chunk q j hq hj htq =>
      refine .chunk q j (hzones ▸ hq) ?_ ?_
      · by_cases he : q = z
        · subst he
          rw [hzz, hsame.2.2]
          exact hj
        · rw [hne q he]
          exact hj
      · by_cases he : q = z
        · subst he
          rw [hzz, hsame.1, hsame.2.1]
          exact htq
        · rw [hne q he]
          exact htq
    | large p n hp hpz hpu htp =>
      refine .large p n (hpages ▸ hp) (hzones ▸ hpz) ?_ htp
      rw [husage]
      exact hpu
  · rw [hlive]
    exact hpw

/-- A list has fewer zones than the heap has pages. -/
theorem length_lt (h : Inv lo npages l free arr fz s) (hr : npages < rounds) (i : Nat) :
    (arr i).length < rounds := by
  have hsub : (arr i).map (fun z => (z, s.zonePageCnt)) ⊆ s.pages.live := fun x hx => by
    obtain ⟨z, hz, rfl⟩ := List.mem_map.mp hx
    exact h.runs z (h.lists.mem_zones hz)
  have hnd : ((arr i).map fun z => (z, s.zonePageCnt)).Nodup :=
    (h.lists.arrNodup i).map fun a b hab => (Prod.mk.inj hab).1
  have hle := (List.subperm_of_subset hnd hsub).length_le
  have htot := length_le_total h.heap.pos
  have hsum := h.heap.sum
  rw [List.length_map] at hle
  omega

/-- A zone all of whose chunks are free goes to the list of free zones. -/
theorem retire (h : Inv lo npages l free arr fz s) (hr : npages < rounds)
    (hz : z ∈ arr (s.zone z).zoneindex) (hfull : (s.zone z).nfree = (s.zone z).nmax) :
    ∃ pz arr', findZone (s.zone z).zoneindex z rounds s none = some pz ∧
      Inv lo npages l free arr' (z :: fz) (s.retireZone z pz) := by
  obtain ⟨pz, arr', hf, hlists⟩ := h.lists.retire hz hfull (h.length_lt hr _)
  have hzone : ∀ q, ∃ m n, (s.retireZone z pz).zone q = { s.zone q with magic := m, next := n } :=
    fun q => by
      obtain ⟨n, hn⟩ := store_zone s (s.zone z).zoneindex pz (s.zone z).next q
      by_cases hq : q = z
      · subst hq
        refine ⟨-1, s.zoneFree, setZone_self.trans ?_⟩
        rw [hn]
        cases pz <;> rfl
      · exact ⟨_, n, (setZone_ne hq).trans hn⟩
  obtain ⟨hpages, hzones, hsize, hlimit, husage, hnext, hlive⟩ :
      (s.retireZone z pz).pages = s.pages ∧ (s.retireZone z pz).zones = s.zones ∧
      (s.retireZone z pz).zoneSize = s.zoneSize ∧ (s.retireZone z pz).zoneLimit = s.zoneLimit ∧
      (s.retireZone z pz).memusage = s.memusage ∧ (s.retireZone z pz).cNext = s.cNext ∧
      (s.retireZone z pz).live = s.live := by
    cases pz <;> exact ⟨rfl, rfl, rfl, rfl, rfl, rfl, rfl⟩
  have hcnt : (s.retireZone z pz).zonePageCnt = s.zonePageCnt := congrArg (· / pageSize) hsize
  refine ⟨pz, arr', hf, ?_, ?_, fun q hq => ?_, ?_, fun q hq => ?_, fun t ht => ?_, ?_, hlists⟩
  · unfold Conf
    rw [hsize, hlimit]
    exact h.conf
  · rw [hpages]
    exact h.heap
  · rw [hcnt, hpages]
    exact h.runs q (hzones ▸ hq)
  · rw [hzones]
    exact h.nodup
  · refine (h.zone q (hzones ▸ hq)).congr (hzone q) hsize (fun i _ => by rw [husage])
      (fun c _ => by rw [hnext]) ?_
    unfold chunksIn
    rw [hlive, hsize]
  · rw [hlive] at ht
    cases h.placed t ht with
    | chunk q i hq hi htq =>
      obtain ⟨m, n, hn⟩ := hzone q
      refine .chunk q i (hzones ▸ hq) ?_ ?_
      · rw [hn]
        exact hi
      · rw [hn]
        exact htq
    | large p n hp hpz hpu htp =>
      refine .large p n (hpages ▸ hp) (hzones ▸ hpz) ?_ htp
      rw [husage]
      exact hpu
  · rw [hlive]
    exact h.apart

end Inv

/-- What `rt_free` does: the blocks that stay, and the zones that go to the page allocator, in
which no block is left. -/
structure Freed (lo npages : Nat) (s s' : SlabHeap) : Prop where
  good : Good lo npages s'
  zoneSize : s'.zoneSize = s.zoneSize
  returned : ∀ z ∈ s.zones, z ∉ s'.zones → ∀ r ∈ s'.live, Apart (z * pageSize, s.zoneSize) r

namespace Inv

/-- The first free zone goes to the page allocator. -/
theorem release (h : Inv lo npages l free arr (z :: fz) s) (hlo : 0 < lo) (hr : npages < rounds) :
    ∃ s', s.releaseZone rounds = some s' ∧ Freed lo npages s s' ∧ s'.live = s.live := by
  have hfree : s.zoneFree = some z := h.lists.frees.1
  obtain ⟨hinv, hspare, -⟩ := h.pop rfl
  have hinv' := hinv.setUsage hspare false
  have hspare' := Spare.mk (s := SlabHeap.setUsage { s with
      zoneFree := (s.zone z).next
      zoneFreeCnt := s.zoneFreeCnt - 1
      zones := s.zones.erase z } z false) hspare.out hspare.zone hspare.off
  obtain ⟨pages, hp, hinv''⟩ := hinv'.pageFree hlo hr hspare'
  refine ⟨_, ?_, ⟨⟨_, _, _, _, hinv''⟩, rfl, fun x hx hno t ht => ?_⟩, rfl⟩
  · unfold releaseZone
    rw [hfree]
    exact hp
  · have hxz : x = z := by
      by_contra hne
      exact hno ((List.mem_erase_of_ne hne).mpr hx)
    rw [hxz]
    exact h.free_off List.mem_cons_self ht

/-- `rt_free` of a chunk, once it is on the list of its zone. -/
theorem freeZone (h : Inv lo npages l free arr fz s) (hlo : 0 < lo) (hr : npages < rounds)
    (hz : z ∈ arr (s.zone z).zoneindex) (hfull : (s.zone z).nfree = (s.zone z).nmax) :
    ∃ s', s.freeZone rounds z = some s' ∧ Freed lo npages s s' ∧ s'.live = s.live := by
  obtain ⟨pz, arr', hf, hinv⟩ := h.retire hr hz hfull
  have hzones : (s.retireZone z pz).zones = s.zones := by cases pz <;> rfl
  have hsize : (s.retireZone z pz).zoneSize = s.zoneSize := by cases pz <;> rfl
  have hlive : (s.retireZone z pz).live = s.live := by cases pz <;> rfl
  unfold SlabHeap.freeZone
  rw [hf]
  simp only [Option.bind_some]
  split
  · obtain ⟨s', hs, hfr, hl⟩ := hinv.release hlo hr
    refine ⟨s', hs, ⟨hfr.good, hfr.zoneSize.trans hsize, fun x hx hno t ht => ?_⟩, hl.trans hlive⟩
    rw [← hsize]
    exact hfr.returned x (by rw [hzones]; exact hx) hno t ht
  · refine ⟨_, rfl, ⟨⟨_, _, _, _, hinv⟩, hsize, fun x hx hno => ?_⟩, hlive⟩
    rw [hzones] at hno
    exact absurd hx hno

/-- The page of a chunk, by its offset in the zone. -/
theorem chunk_page (h : Inv lo npages l free arr fz s) (hz : z ∈ s.zones)
    (hi : i ≤ (s.zone z).uindex) :
    ∃ j, j < s.zonePageCnt ∧ chunkAt (s.zone z) i / pageSize = z + j := by
  have hps : pageSize = 4096 := rfl
  have hs := (h.zone z hz).shape
  have hw := hs.within (Nat.lt_of_le_of_lt hi hs.used)
  have hpos := hs.pos
  obtain ⟨hzs, -, -⟩ := h.conf.zoneSize
  refine ⟨chunkAt (s.zone z) i / pageSize - z, ?_, ?_⟩
  · rw [hzs, hps] at hw
    rw [hps]
    omega
  · rw [hps] at hw ⊢
    omega

/-- **`rt_free`** of a block keeps the heap in order. -/
theorem free_live (h : Inv lo npages l free arr fz s) (hlo : 0 < lo) (hr : npages < rounds)
    (hm : r ∈ s.live) : ∃ s', s.rtFree rounds r.1 = some s' ∧ Freed lo npages s s' := by
  unfold SlabHeap.rtFree
  cases h.placed r hm with
  | large p n hp hpz hu hrp =>
    subst hrp
    have hdiv : p * pageSize / pageSize = p := Nat.mul_div_cancel p (by decide)
    have hmod : p * pageSize % pageSize = 0 := Nat.mul_mod_left p pageSize
    simp only [hdiv, hmod, hu, if_true]
    obtain ⟨hinv, hspare⟩ := h.forgetLarge hp hpz hm ⟨.large, 0⟩
    obtain ⟨pages, hf, hinv'⟩ := hinv.pageFree hlo hr hspare
    exact ⟨_, hf, ⟨⟨_, _, _, _, hinv'⟩, rfl, fun x hx hno => absurd hx hno⟩⟩
  | chunk z i hz hi hrc =>
    subst hrc
    have hzi := h.zone z hz
    obtain ⟨j, hj, hpage⟩ := h.chunk_page hz hi
    have husage := hzi.usage j hj
    have hfz : z ∉ fz := fun hf => by
      have hc := h.mem_chunksIn hz hi hm
      rw [hzi.chunksIn_nil (h.lists.full z hf).2] at hc
      cases hc
    simp only [hpage, husage, Nat.add_sub_cancel]
    rw [if_neg (by decide), if_pos (h.lists.magic z hz hfz)]
    obtain ⟨arr', hinv⟩ := h.pushChunk hz hi hm
    have hsize : (s.pushChunk z (chunkAt (s.zone z) i)).zoneSize = s.zoneSize := by
      unfold SlabHeap.pushChunk
      simp only
      split <;> rfl
    have hzones : (s.pushChunk z (chunkAt (s.zone z) i)).zones = s.zones := by
      unfold SlabHeap.pushChunk
      simp only
      split <;> rfl
    split
    · next hfull =>
      have hz' : z ∈ (s.pushChunk z (chunkAt (s.zone z) i)).zones := by
        rw [hzones]
        exact hz
      have htwo := (hinv.zone z hz').shape.two
      have hz'' := (hinv.lists.mem _ z).mpr ⟨hz', hfz, rfl, by omega⟩
      obtain ⟨s', hs', hfr, -⟩ := hinv.freeZone hlo hr hz'' hfull.1
      refine ⟨s', hs', hfr.good, hfr.zoneSize.trans hsize, fun x hx hno t ht => ?_⟩
      rw [← hsize]
      exact hfr.returned x (by rw [hzones]; exact hx) hno t ht
    · refine ⟨_, rfl, ⟨_, _, _, _, hinv⟩, hsize, fun x hx hno => ?_⟩
      rw [hzones] at hno
      exact absurd hx hno

end Inv

end Tudu.Slab
