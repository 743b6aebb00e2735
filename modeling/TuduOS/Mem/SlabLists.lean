import TuduOS.Mem.SlabHeap

/-!
# The containers of the zones

What the calls do to `zone_array` and to the list of free zones.

* `Lists.unlinkHead`, `Lists.linkHead`: a zone without free chunks leaves its list, and comes back.
* `Lists.retire`: `findZone` finds a zone in its list, which goes to the list of free zones.
* `Lists.pop`, `Lists.new`: the first free zone goes, a new zone comes.
-/

namespace Tudu.Slab

open Chain SlabHeap

variable {z zi q k : Nat} {rest l1 l2 fz : List Nat} {arr : Nat → List Nat} {s : SlabHeap}
  {g : SlabZone} {pz v : Option Nat}

@[simp] theorem setZone_self : (s.setZone z g).zone z = g := Function.update_self ..

theorem setZone_ne (hq : q ≠ z) : (s.setZone z g).zone q = s.zone q := Function.update_of_ne hq ..

theorem nextZone_setZone : nextZone (s.setZone z g) = Function.update (nextZone s) z g.next := by
  funext q
  by_cases hq : q = z
  · subst hq
    rw [Function.update_self, nextZone, setZone_self]
  · rw [Function.update_of_ne hq, nextZone, setZone_ne hq]
    rfl

namespace Lists

variable (h : Lists arr fz s)
include h

theorem mem_zones {i : Nat} (hz : z ∈ arr i) : z ∈ s.zones := ((h.mem i z).mp hz).1

theorem not_mem_fz {i : Nat} (hz : z ∈ arr i) : z ∉ fz := ((h.mem i z).mp hz).2.1

/-- A zone is on one list at most. -/
theorem index_eq {i : Nat} (hz : z ∈ arr i) : (s.zone z).zoneindex = i :=
  ((h.mem i z).mp hz).2.2.1

theorem not_mem {i j : Nat} (hz : z ∈ arr i) (hij : j ≠ i) : z ∉ arr j := fun hj =>
  hij ((h.index_eq hj).symm.trans (h.index_eq hz))

/-- The last free chunk of a zone is taken. -/
theorem unlinkHead (ha : arr zi = z :: rest) (h0 : g.nfree = 0) (hm : g.magic = (s.zone z).magic) :
    Lists (Function.update arr zi rest) fz ((s.setArray zi (s.zone z).next).setZone z g) := by
  have hz : z ∈ arr zi := by
    rw [ha]
    exact List.mem_cons_self
  have hfz := h.not_mem_fz hz
  have hnd := h.arrNodup zi
  have hch := h.arrays zi
  rw [ha] at hnd hch
  obtain ⟨hzr, hnd⟩ := List.nodup_cons.mp hnd
  refine ⟨fun i => ?_, ?_, fun i => ?_, h.fzNodup, fun i q => ?_, fun q hq => ?_, fun q hq hn => ?_,
    h.cnt⟩
  · rw [nextZone_setZone]
    by_cases hi : i = zi
    · subst hi
      rw [Function.update_self]
      show IsChain _ (Function.update s.zoneArray i _ i) _
      rw [Function.update_self]
      exact hch.tail.update hzr _
    · rw [Function.update_of_ne hi]
      show IsChain _ (Function.update s.zoneArray zi _ i) _
      rw [Function.update_of_ne hi]
      exact (h.arrays i).update (h.not_mem hz hi) _
  · rw [nextZone_setZone]
    exact h.frees.update hfz _
  · by_cases hi : i = zi
    · subst hi
      rw [Function.update_self]
      exact hnd
    · rw [Function.update_of_ne hi]
      exact h.arrNodup i
  · by_cases hq : q = z
    · subst hq
      rw [setZone_self, h0]
      refine iff_of_false (fun hm => ?_) fun hm => absurd hm.2.2.2 (Nat.lt_irrefl 0)
      by_cases hi : i = zi
      · subst hi
        rw [Function.update_self] at hm
        exact hzr hm
      · rw [Function.update_of_ne hi] at hm
        exact h.not_mem hz hi hm
    · rw [setZone_ne hq]
      refine Iff.trans ?_ (h.mem i q)
      by_cases hi : i = zi
      · subst hi
        rw [Function.update_self, ha, List.mem_cons]
        exact (or_iff_right hq).symm
      · rw [Function.update_of_ne hi]
  · have hne : q ≠ z := fun he => hfz (he ▸ hq)
    rw [setZone_ne hne]
    exact h.full q hq
  · by_cases he : q = z
    · subst he
      rw [setZone_self, hm]
      exact h.magic q hq hn
    · rw [setZone_ne he]
      exact h.magic q hq hn

/-- A zone that had no free chunk has one. -/
theorem linkHead (hz : z ∈ s.zones) (hn : z ∉ fz) (h0 : (s.zone z).nfree = 0)
    (hzi : (s.zone z).zoneindex = zi) (hi' : g.zoneindex = zi) (hpos : 0 < g.nfree)
    (hnext : g.next = s.zoneArray zi) (hm : g.magic = (s.zone z).magic) :
    Lists (Function.update arr zi (z :: arr zi)) fz ((s.setZone z g).setArray zi (some z)) := by
  have hno : ∀ i, z ∉ arr i := fun i hi => by
    have := ((h.mem i z).mp hi).2.2.2
    omega
  refine ⟨fun i => ?_, ?_, fun i => ?_, h.fzNodup, fun i q => ?_, fun q hq => ?_,
    fun q hq hn' => ?_, h.cnt⟩
  · show IsChain (nextZone (s.setZone z g)) (Function.update s.zoneArray zi _ i) _
    rw [nextZone_setZone, hnext]
    by_cases hi : i = zi
    · subst hi
      rw [Function.update_self, Function.update_self]
      exact (h.arrays i).cons (hno i)
    · rw [Function.update_of_ne hi, Function.update_of_ne hi]
      exact (h.arrays i).update (hno i) _
  · show IsChain (nextZone (s.setZone z g)) s.zoneFree fz
    rw [nextZone_setZone]
    exact h.frees.update hn _
  · by_cases hi : i = zi
    · subst hi
      rw [Function.update_self]
      exact List.nodup_cons.mpr ⟨hno i, h.arrNodup i⟩
    · rw [Function.update_of_ne hi]
      exact h.arrNodup i
  · show _ ↔ q ∈ s.zones ∧ q ∉ fz ∧ ((s.setZone z g).zone q).zoneindex = i ∧
      0 < ((s.setZone z g).zone q).nfree
    by_cases hq : q = z
    · subst hq
      rw [setZone_self, hi']
      by_cases hi : i = zi
      · subst hi
        rw [Function.update_self]
        exact iff_of_true List.mem_cons_self ⟨hz, hn, rfl, hpos⟩
      · rw [Function.update_of_ne hi]
        exact iff_of_false (hno i) fun he => hi he.2.2.1.symm
    · rw [setZone_ne hq]
      refine Iff.trans ?_ (h.mem i q)
      by_cases hi : i = zi
      · subst hi
        rw [Function.update_self, List.mem_cons]
        exact or_iff_right hq
      · rw [Function.update_of_ne hi]
  · have hne : q ≠ z := fun he => hn (he ▸ hq)
    show _ ∧ ((s.setZone z g).zone q).nfree = ((s.setZone z g).zone q).nmax
    rw [setZone_ne hne]
    exact h.full q hq
  · show ((s.setZone z g).zone q).magic = _
    by_cases he : q = z
    · subst he
      rw [setZone_self, hm]
      exact h.magic q hq hn'
    · rw [setZone_ne he]
      exact h.magic q hq hn'

/-- A zone that has not been set up. -/
theorem add (hz : z ∉ s.zones) (h0 : g.nfree = 0) (hm : g.magic = slabMagic) :
    Lists arr fz { s.setZone z g with zones := z :: s.zones } := by
  have harr : ∀ i, z ∉ arr i := fun i hi => hz (h.mem_zones hi)
  have hfz : z ∉ fz := fun hf => hz (h.full z hf).1
  refine ⟨fun i => ?_, ?_, h.arrNodup, h.fzNodup, fun i q => ?_, fun q hq => ?_,
    fun q hq hn => ?_, h.cnt⟩
  · show IsChain (nextZone (s.setZone z g)) (s.zoneArray i) _
    rw [nextZone_setZone]
    exact (h.arrays i).update (harr i) _
  · show IsChain (nextZone (s.setZone z g)) s.zoneFree fz
    rw [nextZone_setZone]
    exact h.frees.update hfz _
  · show _ ↔ q ∈ z :: s.zones ∧ q ∉ fz ∧ ((s.setZone z g).zone q).zoneindex = i ∧
      0 < ((s.setZone z g).zone q).nfree
    by_cases he : q = z
    · subst he
      rw [setZone_self, h0]
      exact iff_of_false (harr i) fun hp => absurd hp.2.2.2 (Nat.lt_irrefl 0)
    · rw [setZone_ne he, h.mem, List.mem_cons, or_iff_right he]
  · have hne : q ≠ z := fun he => hfz (he ▸ hq)
    show q ∈ z :: s.zones ∧ ((s.setZone z g).zone q).nfree = ((s.setZone z g).zone q).nmax
    rw [setZone_ne hne]
    exact ⟨List.mem_cons_of_mem _ (h.full q hq).1, (h.full q hq).2⟩
  · show ((s.setZone z g).zone q).magic = _
    by_cases he : q = z
    · subst he
      rw [setZone_self, hm]
    · rw [setZone_ne he]
      exact h.magic q ((List.mem_cons.mp hq).resolve_left he) hn

theorem new (hz : z ∉ s.zones) (hi : g.zoneindex = zi) (hpos : 0 < g.nfree)
    (hnext : g.next = s.zoneArray zi) (hm : g.magic = slabMagic) :
    Lists (Function.update arr zi (z :: arr zi)) fz
      { (s.setZone z g).setArray zi (some z) with zones := z :: s.zones } := by
  have hadd := h.add (g := { g with nfree := 0 }) hz rfl hm
  have hself : (s.setZone z { g with nfree := 0 }).zone z = { g with nfree := 0 } := setZone_self
  have hlink := hadd.linkHead (z := z) List.mem_cons_self
    (fun hf => hz (h.full z hf).1) (congrArg SlabZone.nfree hself)
    ((congrArg SlabZone.zoneindex hself).trans hi) hi hpos hnext
    (congrArg SlabZone.magic hself).symm
  have htwice : ((({ s.setZone z { g with nfree := 0 } with zones := z :: s.zones } : SlabHeap).setZone
      z g).setArray zi (some z)) =
      { (s.setZone z g).setArray zi (some z) with zones := z :: s.zones } := by
    simp only [setZone, setArray, Function.update_idem]
  rw [htwice] at hlink
  exact hlink

end Lists

/-- The first free zone is taken. -/
theorem Lists.pop (h : Lists arr (z :: fz) s) (hnd : s.zones.Nodup) :
    Lists arr fz { s with
      zoneFree := (s.zone z).next
      zoneFreeCnt := s.zoneFreeCnt - 1
      zones := s.zones.erase z } := by
  obtain ⟨hzf, hfz⟩ := List.nodup_cons.mp h.fzNodup
  refine ⟨h.arrays, h.frees.tail, h.arrNodup, hfz, fun i q => ?_, fun q hq => ?_,
    fun q hq hn => ?_, ?_⟩
  · rw [h.mem, hnd.mem_erase_iff, List.mem_cons, not_or]
    constructor
    · rintro ⟨hm, ⟨hne, hno⟩, hidx⟩
      exact ⟨⟨hne, hm⟩, hno, hidx⟩
    · rintro ⟨⟨hne, hm⟩, hno, hidx⟩
      exact ⟨hm, ⟨hne, hno⟩, hidx⟩
  · have hne : q ≠ z := fun he => hzf (he ▸ hq)
    obtain ⟨hm, hf⟩ := h.full q (List.mem_cons_of_mem _ hq)
    exact ⟨hnd.mem_erase_iff.mpr ⟨hne, hm⟩, hf⟩
  · obtain ⟨hne, hm⟩ := hnd.mem_erase_iff.mp hq
    exact h.magic q hm fun hc => (List.mem_cons.mp hc).elim hne hn
  · have hc := h.cnt
    rw [List.length_cons] at hc
    show s.zoneFreeCnt - 1 = fz.length
    omega

/-! ## A zone leaves its list -/

theorem findZone_spec (hch : IsChain (nextZone s) (s.deref zi pz) (l1 ++ z :: l2)) (hz : z ∉ l1)
    (hk : l1.length < k) : ∃ pz', findZone zi z k s pz = some pz' ∧
      (l1 = [] ∧ pz' = pz ∨ ∃ l0 q, l1 = l0 ++ [q] ∧ pz' = some q) := by
  induction l1 generalizing pz k with
  | nil =>
    obtain ⟨k, rfl⟩ := Nat.exists_eq_succ_of_ne_zero (Nat.ne_of_gt hk)
    have hd : s.deref zi pz = some z := hch.1
    refine ⟨pz, ?_, .inl ⟨rfl, rfl⟩⟩
    rw [findZone, hd]
    exact if_pos rfl
  | cons q l1 ih =>
    obtain ⟨k, rfl⟩ := Nat.exists_eq_succ_of_ne_zero (Nat.ne_of_gt (Nat.zero_lt_of_lt hk))
    obtain ⟨hzq, hz⟩ := not_or.mp fun hm => hz (List.mem_cons.mpr hm)
    have hd : s.deref zi pz = some q := hch.1
    have hch' : IsChain (nextZone s) (s.deref zi (some q)) (l1 ++ z :: l2) := hch.tail
    obtain ⟨pz', hf, hor⟩ := ih hch' hz (Nat.lt_of_succ_lt_succ hk)
    refine ⟨pz', ?_, .inr ?_⟩
    · rw [findZone, hd]
      exact (if_neg (Ne.symm hzq)).trans hf
    · rcases hor with ⟨rfl, rfl⟩ | ⟨l0, q', rfl, rfl⟩
      · exact ⟨[], q, rfl, rfl⟩
      · exact ⟨q :: l0, q', rfl, rfl⟩

/-- `*pz = v` changes a `z_next` only. -/
theorem store_zone (s : SlabHeap) (zi : Nat) (pz v : Option Nat) (q : Nat) :
    ∃ n, (s.store zi pz v).zone q = { s.zone q with next := n } := by
  cases pz with
  | none => exact ⟨_, rfl⟩
  | some p =>
    by_cases hq : q = p
    · subst hq
      exact ⟨v, setZone_self⟩
    · exact ⟨_, setZone_ne hq⟩

/-- The zone behind `pz` is taken off its list; the other lists stay. -/
theorem Lists.store_chain (h : Lists arr fz s) (ha : arr zi = l1 ++ z :: l2)
    (hpz : l1 = [] ∧ pz = none ∨ ∃ l0 q, l1 = l0 ++ [q] ∧ pz = some q) :
    (∀ i, IsChain (nextZone (s.store zi pz (s.zone z).next))
      ((s.store zi pz (s.zone z).next).zoneArray i) (Function.update arr zi (l1 ++ l2) i)) ∧
    IsChain (nextZone (s.store zi pz (s.zone z).next)) s.zoneFree fz := by
  have hch := h.arrays zi
  rw [ha] at hch
  rcases hpz with ⟨rfl, rfl⟩ | ⟨l0, q, rfl, rfl⟩
  · refine ⟨fun i => ?_, h.frees⟩
    show IsChain (nextZone s) (Function.update s.zoneArray zi _ i) _
    by_cases hi : i = zi
    · subst hi
      rw [Function.update_self, Function.update_self]
      exact hch.tail
    · rw [Function.update_of_ne hi, Function.update_of_ne hi]
      exact h.arrays i
  · have hq : q ∈ arr zi := by
      rw [ha]
      simp
    have hnd := h.arrNodup zi
    rw [ha, List.append_assoc] at hnd
    obtain ⟨-, hnd2, hdis⟩ := List.nodup_append.mp hnd
    have hq0 : q ∉ l0 := fun hm => hdis q hm q List.mem_cons_self rfl
    have hq2 : q ∉ l2 := fun hm =>
      (List.nodup_cons.mp hnd2).1 (List.mem_cons_of_mem _ hm)
    have hnext : nextZone (s.store zi (some q) (s.zone z).next) =
        Function.update (nextZone s) q (s.zone z).next := nextZone_setZone
    rw [hnext]
    refine ⟨fun i => ?_, h.frees.update (h.not_mem_fz hq) _⟩
    by_cases hi : i = zi
    · subst hi
      rw [Function.update_self, List.append_assoc]
      rw [List.append_assoc] at hch
      exact IsChain.unlink hch hq0 hq2
    · rw [Function.update_of_ne hi]
      exact (h.arrays i).update (h.not_mem hq hi) _

/-- A zone all of whose chunks are free goes from its list to the list of free zones. -/
theorem Lists.retire (h : Lists arr fz s) (hz : z ∈ arr zi)
    (hfull : (s.zone z).nfree = (s.zone z).nmax) (hk : (arr zi).length < k) :
    ∃ pz arr', findZone zi z k s none = some pz ∧ Lists arr' (z :: fz) (s.retireZone z pz) := by
  obtain ⟨l1, l2, ha⟩ := List.append_of_mem hz
  have hidx := h.index_eq hz
  have hnd := h.arrNodup zi
  have hch := h.arrays zi
  rw [ha] at hnd hch hk
  obtain ⟨hz1, hnd'⟩ : z ∉ l1 ++ l2 ∧ (l1 ++ l2).Nodup :=
    List.nodup_cons.mp (List.nodup_middle.mp hnd)
  have hl1 : z ∉ l1 := fun hm => hz1 (List.mem_append_left _ hm)
  rw [List.length_append] at hk
  have hch0 : IsChain (nextZone s) (s.deref zi none) (l1 ++ z :: l2) := hch
  obtain ⟨pz, hf, hor⟩ := findZone_spec hch0 hl1 (k := k) (by omega)
  obtain ⟨harr, hfree⟩ := h.store_chain ha hor
  refine ⟨pz, Function.update arr zi (l1 ++ l2), hf, ?_⟩
  have hzfz := h.not_mem_fz hz
  have hzarr : ∀ i, z ∉ Function.update arr zi (l1 ++ l2) i := fun i hm => by
    by_cases hi : i = zi
    · subst hi
      rw [Function.update_self] at hm
      exact hz1 hm
    · rw [Function.update_of_ne hi] at hm
      exact h.not_mem hz hi hm
  have hzone : ∀ q, q ≠ z → ∃ n, (s.retireZone z pz).zone q = { s.zone q with next := n } :=
    fun q hq => by
      obtain ⟨n, hn⟩ := store_zone s (s.zone z).zoneindex pz (s.zone z).next q
      exact ⟨n, (setZone_ne hq).trans hn⟩
  have hzz : ∃ n, (s.retireZone z pz).zone z = { s.zone z with magic := -1, next := n } := by
    obtain ⟨n, hn⟩ := store_zone s (s.zone z).zoneindex pz (s.zone z).next z
    refine ⟨s.zoneFree, setZone_self.trans ?_⟩
    rw [hn]
    cases pz <;> rfl
  have hzf : (s.store zi pz (s.zone z).next).zoneFree = s.zoneFree := by cases pz <;> rfl
  have hnext : nextZone (s.retireZone z pz) =
      Function.update (nextZone (s.store zi pz (s.zone z).next)) z s.zoneFree := by
    rw [← hzf, ← hidx]
    exact nextZone_setZone
  have hzs : (s.retireZone z pz).zones = s.zones := by cases pz <;> rfl
  refine ⟨fun i => ?_, ?_, fun i => ?_, List.nodup_cons.mpr ⟨hzfz, h.fzNodup⟩, fun i q => ?_,
    fun q hq => ?_, fun q hq hn => ?_, ?_⟩
  · rw [hnext]
    have hc := (harr i).update (hzarr i) s.zoneFree
    rw [← hidx] at hc ⊢
    exact hc
  · rw [hnext]
    exact hfree.cons hzfz
  · by_cases hi : i = zi
    · subst hi
      rw [Function.update_self]
      exact hnd'
    · rw [Function.update_of_ne hi]
      exact h.arrNodup i
  · rw [hzs]
    by_cases hq : q = z
    · subst hq
      exact iff_of_false (hzarr i) fun hm => hm.2.1 List.mem_cons_self
    · obtain ⟨n, hn⟩ := hzone q hq
      rw [hn, List.mem_cons, or_iff_right hq]
      refine Iff.trans ?_ (h.mem i q)
      by_cases hi : i = zi
      · subst hi
        rw [Function.update_self, ha, List.mem_append, List.mem_append, List.mem_cons,
          or_iff_right hq]
      · rw [Function.update_of_ne hi]
  · rw [hzs]
    rcases List.mem_cons.mp hq with rfl | hq
    · obtain ⟨n, hn⟩ := hzz
      rw [hn]
      exact ⟨h.mem_zones hz, hfull⟩
    · obtain ⟨n, hn⟩ := hzone q fun he => hzfz (he ▸ hq)
      rw [hn]
      exact h.full q hq
  · rw [hzs] at hq
    obtain ⟨hqz, hqf⟩ := not_or.mp fun hm => hn (List.mem_cons.mpr hm)
    obtain ⟨n, hn⟩ := hzone q hqz
    rw [hn]
    exact h.magic q hq hqf
  · show (s.store (s.zone z).zoneindex pz (s.zone z).next).zoneFreeCnt + 1 = _
    rw [List.length_cons, ← h.cnt]
    cases pz <;> rfl

end Tudu.Slab
