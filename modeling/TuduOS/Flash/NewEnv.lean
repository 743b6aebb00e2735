import TuduOS.Flash.Gc

/-!
# When `new_env` fails an assertion

`alloc_env` goes on to `contsector_wander_find` when there is an empty sector and it has found no
place, and this asserts that the ENV is larger than a sector. Of valid sectors, `Starved` says when
it comes to that: a sector in use takes only an ENV that leaves a byte, and of one empty sector
there is no use before a garbage collection is requested.

* `allocSearch_spec`: what the search for one sector finds.
* `newEnv_ok_iff`: when no call of a run fails the assertion, and garbage is collected when it
  should.
-/

namespace Tudu.Flash

open Bytes (Memory)
open Nor Tiling

/-- The sector has room, and can be taken. -/
def Sector.Takes (s : Sector) (gcRequest : Bool) (envSize : Nat) : Prop :=
  envSize < s.remain ∧ (s.dirty = .clean ∨ s.dirty = .dirty ∧ gcRequest = false)

instance (s : Sector) (gcRequest : Bool) (envSize : Nat) : Decidable (s.Takes gcRequest envSize) :=
  inferInstanceAs (Decidable (_ ∧ (_ ∨ _ ∧ _)))

/-- No sector of this status takes the ENV. -/
def NoneTakes (l : List Sector) (status : StoreStatus) (gcRequest : Bool) (envSize : Nat) : Prop :=
  ∀ s ∈ l, s.store = status → ¬ s.Takes gcRequest envSize

/-- The sectors of a status. -/
def count (l : List Sector) (status : StoreStatus) : Nat :=
  l.countP fun s => decide (s.store = status)

/-- There is an empty sector, and no place for the ENV. -/
structure Starved (l : List Sector) (gcRequest : Bool) (envSize : Nat) : Prop where
  empty : 0 < count l .empty
  inUse : NoneTakes l .inUse gcRequest envSize
  search : efGcEmptySecThreshold < count l .empty ∨ gcRequest = true →
    NoneTakes l .empty gcRequest envSize

/-! ## The iterator over valid sectors -/

section Iterator

variable {σ : Type}

/-- What the callback leaves, if it reads the sectors only. -/
def visitSectors (status : StoreStatus) (callback : Nat × Sector → σ → Bool × σ) :
    List (Nat × Sector) → σ → σ
  | [], v => v
  | x :: l, v =>
    if status = .unused ∨ status = x.2.store then
      if (callback x v).1 then (callback x v).2 else visitSectors status callback l (callback x v).2
    else visitSectors status callback l v

variable {n o : Nat} {l : List Sector} {m : SectorMeta} {ef : Ef} {status : StoreStatus}
  {callback : SectorMeta → Ef → σ → Option (Bool × Ef × σ)} {cb : Nat × Sector → σ → Bool × σ}
  {traversalEnv : Bool}

theorem sectorsFrom_visit (v : σ)
    (hcb : ∀ m x v, callback (seenMeta traversalEnv m x) ef v = some ((cb x v).1, ef, (cb x v).2))
    (hm : Behind m o) (hl : From ef.flash o l) (hn : envAreaSize + l.length < n + sectorSize) :
    ∃ m', sectorsFrom status callback traversalEnv n m ef v =
      some (m', ef, visitSectors status cb (place Sector.bytes o l) v) := by
  have hsize : sectorSize = 4096 := rfl
  have harea : envAreaSize = 49152 := rfl
  obtain ⟨n, rfl⟩ : ∃ k, n = k + 1 := ⟨n - 1, by omega⟩
  induction l generalizing n m o v with
  | nil => exact ⟨m, sectorsFrom_nil hm hl v⟩
  | cons s l ih =>
    rw [List.length_cons] at hn
    obtain ⟨n, rfl⟩ : ∃ k, n = k + 1 := ⟨n - 1, by omega⟩
    have hgo : ∀ b v, ∃ m'', sectorsFrom status callback traversalEnv (n + 1) (seenMeta b m (o, s)) ef v =
        some (m'', ef, visitSectors status cb (place Sector.bytes (o + s.bytes) l) v) := fun b v =>
      ih v (behind_seenMeta hl.bound) hl.tail n (by omega)
    rw [sectorsFrom_cons hm hl (by omega), place_cons, visitSectors]
    split
    · rw [hcb, Option.bind_some]
      cases (cb (o, s) v).1
      · exact hgo _ _
      · exact ⟨_, rfl⟩
    · exact hgo _ v

theorem sectorIterator_visit (status : StoreStatus)
    (callback : SectorMeta → Ef → σ → Option (Bool × Ef × σ)) (traversalEnv : Bool) (v : σ)
    (hcb : ∀ m x v, callback (seenMeta traversalEnv m x) ef v = some ((cb x v).1, ef, (cb x v).2))
    (hl : Area ef.flash l) (hn : envAreaSize ≤ n) (m : SectorMeta) :
    ∃ m', sectorIterator n status callback traversalEnv m ef v =
      some (m', ef, visitSectors status cb (place Sector.bytes envStartAddr l) v) := by
  have hlen := hl.start.length_le
  have hsize : sectorSize = 4096 := rfl
  have harea : envAreaSize = 49152 := rfl
  exact sectorsFrom_visit v hcb (behind_start rfl) hl.start (by omega)

end Iterator

/-! ## The search for one sector -/

variable {n o envSize : Nat} {l : List Sector} {m : SectorMeta} {ef : Ef} {status : StoreStatus}
  {gcRequest : Bool}

def statisticsCb (x : Nat × Sector) (v : Nat × Nat) : Bool × (Nat × Nat) :=
  if x.2.store = .empty then (false, (v.1 + 1, v.2))
  else if x.2.store = .inUse then (false, (v.1, v.2 + 1))
  else (false, v)

def takeCb (gcRequest : Bool) (envSize : Nat) (x : Nat × Sector) (v : Nat) : Bool × Nat :=
  if x.2.Takes gcRequest envSize then (true, x.2.emptyEnv x.1) else (false, v)

theorem statisticsCb_spec (b : Bool) (m : SectorMeta) (x : Nat × Sector) (v : Nat × Nat) :
    sectorStatisticsCb (seenMeta b m x) ef v = some ((statisticsCb x v).1, ef, (statisticsCb x v).2) := by
  have hok : (seenMeta b m x).checkOk = true := by cases b <;> rfl
  have hst : (seenMeta b m x).store = x.2.store := by cases b <;> rfl
  unfold sectorStatisticsCb statisticsCb
  rw [hok, hst]
  simp only [true_and]
  split
  · rfl
  · split <;> rfl

theorem takeCb_spec (m : SectorMeta) (x : Nat × Sector) (v : Nat) :
    allocEnvCb envSize (seenMeta true m x) ef v =
      some ((takeCb ef.gcRequest envSize x v).1, ef, (takeCb ef.gcRequest envSize x v).2) := by
  unfold allocEnvCb
  by_cases h : x.2.Takes ef.gcRequest envSize
  · have hcb : takeCb ef.gcRequest envSize x v = (true, x.2.emptyEnv x.1) := if_pos h
    rw [hcb]
    exact if_pos ⟨rfl, h⟩
  · have hcb : takeCb ef.gcRequest envSize x v = (false, v) := if_neg h
    rw [hcb]
    exact if_neg fun hc => h hc.2

theorem visit_statistics (v : Nat × Nat) :
    visitSectors .unused statisticsCb (place Sector.bytes o l) v =
      (v.1 + count l .empty, v.2 + count l .inUse) := by
  induction l generalizing o v with
  | nil => rfl
  | cons s l ih =>
    rw [place_cons]
    unfold visitSectors
    rw [if_pos (.inl rfl)]
    have hfalse : (statisticsCb (o, s) v).1 = false := by
      unfold statisticsCb
      split
      · rfl
      · split <;> rfl
    rw [hfalse, if_neg Bool.false_ne_true, ih]
    unfold count statisticsCb
    rw [List.countP_cons, List.countP_cons]
    cases hs : s.store <;> simp <;> omega

/-- Without a sector that takes the ENV, nothing is found. -/
theorem visit_none (h : NoneTakes l status gcRequest envSize) (v : Nat) (hs : status ≠ .unused) :
    visitSectors status (takeCb gcRequest envSize) (place Sector.bytes o l) v = v := by
  induction l generalizing o with
  | nil => rfl
  | cons s l ih =>
    have hrest := ih (o := o + s.bytes) fun t ht => h t (List.mem_cons_of_mem _ ht)
    rw [place_cons]
    unfold visitSectors
    split
    · next hst =>
      have hno := h s List.mem_cons_self (hst.resolve_left hs).symm
      have hcb : takeCb gcRequest envSize (o, s) v = (false, v) := if_neg hno
      rw [hcb, if_neg Bool.false_ne_true]
      exact hrest
    · exact hrest

/-- With one, its free space is in the area. -/
theorem visit_some (h : ¬ NoneTakes l status gcRequest envSize) (v : Nat)
    (ho : o + total Sector.bytes l ≤ envAreaSize) :
    visitSectors status (takeCb gcRequest envSize) (place Sector.bytes o l) v ≠ failedAddr := by
  have harea : envAreaSize = 49152 := rfl
  have hhdr : sectorHdrDataSize = 16 := rfl
  induction l generalizing o with
  | nil => exact absurd (fun _ hs => absurd hs List.not_mem_nil) h
  | cons s l ih =>
    rw [total_cons] at ho
    have hrest : s.store ≠ status ∨ ¬ s.Takes gcRequest envSize →
        visitSectors status (takeCb gcRequest envSize) (place Sector.bytes (o + s.bytes) l) v ≠
          failedAddr := by
      intro hno
      refine ih (fun hall => h fun t ht hst => ?_) (by omega)
      rcases List.mem_cons.mp ht with rfl | ht
      · exact hno.resolve_left (not_not.mpr hst)
      · exact hall t ht hst
    rw [place_cons]
    unfold visitSectors
    by_cases hst : status = .unused ∨ status = s.store
    · rw [if_pos hst]
      by_cases htakes : s.Takes gcRequest envSize
      · have hcb : takeCb gcRequest envSize (o, s) v = (true, s.emptyEnv o) := if_pos htakes
        have hfits := s.used_le
        have haddr : s.emptyEnv o ≤ o + sectorHdrDataSize + s.used := by
          unfold Sector.emptyEnv
          split
          · exact Nat.le_refl _
          · exact Nat.le_add_right _ _
        rw [hcb, if_pos rfl]
        unfold failedAddr
        show s.emptyEnv o ≠ _
        omega
      · have hcb : takeCb gcRequest envSize (o, s) v = (false, v) := if_neg htakes
        rw [hcb, if_neg Bool.false_ne_true]
        exact hrest (.inr htakes)
    · rw [if_neg hst]
      exact hrest (.inl fun he => hst (.inr he.symm))

/-- What is found in the sectors of a status. -/
theorem find_spec (envSize : Nat) (hl : Area ef.flash l) (hn : envAreaSize ≤ n)
    (hs : status ≠ .unused) (m : SectorMeta) : ∃ m' a,
    sectorIterator n status (allocEnvCb envSize) true m ef failedAddr = some (m', ef, a) ∧
      (a = failedAddr ↔ NoneTakes l status ef.gcRequest envSize) := by
  obtain ⟨m', h⟩ := sectorIterator_visit status (allocEnvCb envSize) true failedAddr takeCb_spec hl hn m
  refine ⟨m', _, h, ?_⟩
  constructor
  · intro ha
    by_contra hno
    have hle : envStartAddr + total Sector.bytes l ≤ envAreaSize :=
      Nat.le_of_eq ((Nat.zero_add _).trans hl.total)
    exact visit_some hno failedAddr hle ha
  · intro hno
    exact visit_none hno failedAddr hs

/-- **What the search for one sector finds.** -/
theorem allocSearch_spec (hl : Area ef.flash l) (hn : envAreaSize ≤ n) (m : SectorMeta)
    (envSize : Nat) : ∃ q, allocSearch n m ef envSize = some q ∧ q.ef.flash = ef.flash ∧
      (q.Combines ↔ Starved l ef.gcRequest envSize) ∧
      (¬ q.Combines → q.ef.gcRequest = ef.gcRequest ∧
        (q.emptyEnv = failedAddr ↔
          NoneTakes l .inUse ef.gcRequest envSize ∧ count l .empty = 0)) := by
  obtain ⟨m1, h1⟩ := sectorIterator_visit .unused sectorStatisticsCb false (0, 0)
    (statisticsCb_spec false) hl hn m
  rw [visit_statistics, Nat.zero_add, Nat.zero_add] at h1
  -- what follows the search in the sectors in use
  have htail : ∀ m2 a, (a = failedAddr ↔ NoneTakes l .inUse ef.gcRequest envSize) →
      ∃ q : Search, (if 0 < count l .empty ∧ a = failedAddr then
          if efGcEmptySecThreshold < count l .empty ∨ ef.gcRequest = true then
            (sectorIterator n .empty (allocEnvCb envSize) true m2 ef failedAddr).bind fun r =>
              some { sector := r.1, ef := r.2.1, emptySector := count l .empty, emptyEnv := r.2.2 }
          else some { sector := m2, ef := { ef with gcRequest := true },
                      emptySector := count l .empty, emptyEnv := a }
        else some { sector := m2, ef := ef, emptySector := count l .empty, emptyEnv := a }) =
          some q ∧ q.ef.flash = ef.flash ∧ (q.Combines ↔ Starved l ef.gcRequest envSize) ∧
        (¬ q.Combines → q.ef.gcRequest = ef.gcRequest ∧
          (q.emptyEnv = failedAddr ↔
            NoneTakes l .inUse ef.gcRequest envSize ∧ count l .empty = 0)) := by
    intro m2 a ha
    by_cases hgo : 0 < count l .empty ∧ a = failedAddr
    · rw [if_pos hgo]
      by_cases hmany : efGcEmptySecThreshold < count l .empty ∨ ef.gcRequest = true
      · obtain ⟨m3, b, h3, hb⟩ := find_spec envSize hl hn
          (show StoreStatus.empty ≠ .unused from StoreStatus.noConfusion) m2
        rw [if_pos hmany, h3]
        refine ⟨_, rfl, rfl, ?_, ?_⟩
        · exact ⟨fun hc => ⟨hgo.1, ha.mp hgo.2, fun _ => hb.mp hc.2⟩,
            fun hs => ⟨hgo.1, hb.mpr (hs.search hmany)⟩⟩
        · intro hc
          refine ⟨rfl, fun hfail => absurd ⟨hgo.1, hfail⟩ hc, fun hz => absurd hz.2 ?_⟩
          exact Nat.ne_of_gt hgo.1
      · rw [if_neg hmany]
        refine ⟨_, rfl, rfl, ?_, fun hc => absurd hgo hc⟩
        exact ⟨fun _ => ⟨hgo.1, ha.mp hgo.2, fun hx => absurd hx hmany⟩, fun _ => hgo⟩
    · rw [if_neg hgo]
      refine ⟨_, rfl, rfl, ?_, fun _ => ⟨rfl, ?_⟩⟩
      · exact ⟨fun hc => absurd hc hgo, fun hs => absurd ⟨hs.empty, ha.mpr hs.inUse⟩ hgo⟩
      · constructor
        · intro hfail
          exact ⟨ha.mp hfail, Nat.eq_zero_of_not_pos fun hpos => hgo ⟨hpos, hfail⟩⟩
        · intro hz
          exact ha.mpr hz.1
  unfold allocSearch
  simp only [h1, Option.bind_eq_bind, Option.bind_some]
  by_cases hu : 0 < count l .inUse
  · obtain ⟨m2, a, h2, ha⟩ := find_spec envSize hl hn
      (show StoreStatus.inUse ≠ .unused from StoreStatus.noConfusion) m1
    rw [if_pos hu, h2]
    exact htail m2 a ha
  · have hnone : NoneTakes l .inUse ef.gcRequest envSize := fun s hs hst =>
      absurd (List.countP_pos_iff.mpr ⟨s, hs, decide_eq_true hst⟩) hu
    rw [if_neg hu]
    simpa only [eq_self_iff_true] using htail m1 failedAddr ⟨fun _ => hnone, fun _ => rfl⟩

/-! ## The run -/

/-- `contsector_wander_find` is called with a size for which its assertion fails. -/
def Asserts (n : Nat) (sector : SectorMeta) (ef : Ef) (envSize : Nat) : Prop :=
  ∃ q, allocSearch n sector ef envSize = some q ∧ q.Combines ∧
    ¬ sectorSize - sectorHdrDataSize < envSize

/-- What should hold of a call of `new_env` in the sectors `l`. -/
structure NewEnvOk (n : Nat) (stack sector : SectorMeta) (ef : Ef) (envSize : Nat)
    (l : List Sector) : Prop where
  asserts : ∀ m e k, .alloc m e k ∈ (newEnv n stack sector ef envSize).events → ¬ Asserts n m e k
  /-- An ENV that fits into one sector has no place, and a sector is dirty: garbage is collected
  once, and then space is looked for again. -/
  collects : ∀ m e, allocEnv n sector ef envSize = some (failedAddr, m, e) →
    envSize ≤ sectorSize - sectorHdrDataSize → (∃ s ∈ l, s.dirty = .dirty) →
    ∃ es, (newEnv n stack sector ef envSize).events = .alloc sector ef envSize :: .collect :: es ∧
      .collect ∉ es ∧ ((newEnv n stack sector ef envSize).out.isSome →
        ∃ es' m e, es = es' ++ [.alloc m e envSize])

/-- There is no empty sector, no place for the ENV, and garbage, but no collection is requested. -/
structure Uncollected (l : List Sector) (gcRequest : Bool) (envSize : Nat) : Prop where
  small : envSize ≤ sectorSize - sectorHdrDataSize
  request : gcRequest = false
  empty : count l .empty = 0
  inUse : NoneTakes l .inUse gcRequest envSize
  dirty : ∃ s ∈ l, s.dirty = .dirty

/-- When the assertion fails in valid sectors. -/
theorem asserts_iff (hl : Area ef.flash l) (hn : envAreaSize ≤ n) (m : SectorMeta) :
    Asserts n m ef envSize ↔
      Starved l ef.gcRequest envSize ∧ envSize ≤ sectorSize - sectorHdrDataSize := by
  obtain ⟨q, hq, -, hcomb, -⟩ := allocSearch_spec hl hn m envSize
  constructor
  · rintro ⟨q', hq', hc, hsize⟩
    rw [hq] at hq'
    cases hq'
    exact ⟨hcomb.mp hc, Nat.le_of_not_lt hsize⟩
  · rintro ⟨hs, hsize⟩
    exact ⟨q, hq, hcomb.mpr hs, Nat.not_lt_of_le hsize⟩

/-- What `alloc_env` comes to where it does not combine sectors. -/
theorem allocEnv_fed (hl : Area ef.flash l) (hn : envAreaSize ≤ n) (m : SectorMeta)
    (hs : ¬ Starved l ef.gcRequest envSize) : ∃ a m' e, allocEnv n m ef envSize = some (a, m', e) ∧
      e.gcRequest = ef.gcRequest ∧
      (a = failedAddr ↔ NoneTakes l .inUse ef.gcRequest envSize ∧ count l .empty = 0) := by
  obtain ⟨q, hq, -, hcomb, hfed⟩ := allocSearch_spec hl hn m envSize
  have hno := mt hcomb.mp hs
  obtain ⟨hreq, haddr⟩ := hfed hno
  refine ⟨q.emptyEnv, q.sector, q.ef, ?_, hreq, haddr⟩
  unfold allocEnv
  rw [hq, Option.bind_eq_bind, Option.bind_some, if_neg hno]

variable {stack sector : SectorMeta}

/-- The calls, if no garbage is collected. -/
theorem newEnv_once (h : ∀ r, allocEnv n sector ef envSize = some r →
    ¬ (r.1 = failedAddr ∧ r.2.2.gcRequest = true)) :
    (newEnv n stack sector ef envSize).events = [.alloc sector ef envSize] := by
  unfold newEnv
  cases ho : allocEnv n sector ef envSize with
  | none =>
    rw [bind_none ho]
    rfl
  | some r =>
    rw [bind_some ho, if_neg (h r ho)]
    rfl

/-- The calls, if garbage is collected. -/
theorem newEnv_twice {r : Nat × SectorMeta × Ef} (ho : allocEnv n sector ef envSize = some r)
    (h : r.1 = failedAddr ∧ r.2.2.gcRequest = true) :
    ∃ es, (newEnv n stack sector ef envSize).events = .alloc sector ef envSize :: .collect :: es ∧
      .collect ∉ es ∧ ((newEnv n stack sector ef envSize).out.isSome →
        ∃ es' m e, es = es' ++ [.alloc m e envSize]) := by
  have hplain : (gcCollect n stack r.2.2).Plain := .gcCollect
  unfold newEnv
  rw [bind_some (x := callAllocEnv n sector ef envSize) ho, if_pos h,
    bind_some (x := Run.log .collect) (a := ()) rfl]
  cases hg : (gcCollect n stack r.2.2).out with
  | none =>
    rw [bind_none hg]
    exact ⟨_, rfl, hplain, fun hout => by cases hout⟩
  | some ef' =>
    rw [bind_some hg]
    refine ⟨(gcCollect n stack r.2.2).events ++ [.alloc r.2.1 ef' envSize], rfl, ?_,
      fun _ => ⟨_, _, _, rfl⟩⟩
    exact List.not_mem_append hplain (Run.Plain.callAllocEnv (n := n))

/-- **When `new_env` fails no assertion and collects garbage.** In the sectors `l`, where small ENVs
are looked for in valid sectors, if and only if no call of `alloc_env` for a small ENV is starved,
and the first one is not left without the collection. -/
theorem newEnv_ok_iff (hl : Area ef.flash l) (hn : envAreaSize ≤ n)
    (hvalid : ∀ m e k, .alloc m e k ∈ (newEnv n stack sector ef envSize).events →
      k ≤ sectorSize - sectorHdrDataSize → ∃ l, Area e.flash l) :
    NewEnvOk n stack sector ef envSize l ↔
      (∀ m e k l', .alloc m e k ∈ (newEnv n stack sector ef envSize).events →
        k ≤ sectorSize - sectorHdrDataSize → Area e.flash l' → ¬ Starved l' e.gcRequest k) ∧
        ¬ Uncollected l ef.gcRequest envSize := by
  constructor
  · intro h
    refine ⟨fun m e k l' hmem hk hl' hs => h.asserts m e k hmem ((asserts_iff hl' hn m).mpr ⟨hs, hk⟩),
      fun hu => ?_⟩
    -- the first call fails, and nothing else happens
    have hfed : ¬ Starved l ef.gcRequest envSize := fun hs => Nat.ne_of_gt hs.empty hu.empty
    obtain ⟨a, m', e, ho, hreq, ha⟩ := allocEnv_fed hl hn sector hfed
    obtain rfl := ha.mpr ⟨hu.inUse, hu.empty⟩
    obtain ⟨es, hes, -⟩ := h.collects m' e ho hu.small hu.dirty
    have honce : (newEnv n stack sector ef envSize).events = [.alloc sector ef envSize] := by
      refine newEnv_once fun r hr hc => ?_
      rw [ho] at hr
      cases hr
      rw [hreq, hu.request] at hc
      cases hc.2
    rw [honce] at hes
    cases hes
  · rintro ⟨hfed, hno⟩
    refine ⟨fun m e k hmem ha => ?_, fun m e ho hsize hdirty => ?_⟩
    · have hk : k ≤ sectorSize - sectorHdrDataSize := by
        obtain ⟨-, -, -, hk⟩ := ha
        exact Nat.le_of_not_lt hk
      obtain ⟨l', hl'⟩ := hvalid m e k hmem hk
      exact hfed m e k l' hmem hk hl' ((asserts_iff hl' hn m).mp ha).1
    · have hfirst : .alloc sector ef envSize ∈ (newEnv n stack sector ef envSize).events :=
        mem_bind_left List.mem_cons_self
      obtain ⟨a, m', e', ho', hreq, ha⟩ := allocEnv_fed hl hn sector (hfed _ _ _ l hfirst hsize hl)
      rw [ho] at ho'
      cases ho'
      obtain ⟨hinUse, hempty⟩ := ha.mp rfl
      have hgc : ef.gcRequest = true := by
        by_contra hx
        exact hno ⟨hsize, Bool.eq_false_of_not_eq_true hx, hempty, hinUse, hdirty⟩
      exact newEnv_twice ho ⟨rfl, hreq.trans hgc⟩

/-- An ENV of 26 bytes in a formatted area. -/
theorem newEnv_ok_iff_formatted :
    NewEnvOk envAreaSize stackSector stackSector formattedEf 26
      (List.replicate sectorNum emptySector) := by
  have hl : Area formattedEf.flash (List.replicate sectorNum emptySector) := formatArea_area _
  have hsearch : (allocSearch envAreaSize stackSector formattedEf 26).map
      (fun q => (decide q.Combines, q.emptyEnv)) = some (false, 16) := by decide +kernel
  obtain ⟨q, hq, hr⟩ := Option.map_eq_some_iff.mp hsearch
  obtain ⟨hcomb, haddr⟩ := Prod.mk.inj hr
  have hno : ¬ q.Combines := of_decide_eq_false hcomb
  have honce : (newEnv envAreaSize stackSector stackSector formattedEf 26).events =
      [.alloc stackSector formattedEf 26] := by
    refine newEnv_once fun r hr hc => ?_
    unfold allocEnv at hr
    rw [hq, Option.bind_eq_bind, Option.bind_some, if_neg hno] at hr
    cases hr
    exact absurd (haddr.symm.trans hc.1) (by decide)
  have hfirst : ∀ m e k, .alloc m e k ∈
      (newEnv envAreaSize stackSector stackSector formattedEf 26).events →
      m = stackSector ∧ e = formattedEf ∧ k = 26 := by
    intro m e k hmem
    rw [honce] at hmem
    cases List.mem_singleton.mp hmem
    exact ⟨rfl, rfl, rfl⟩
  refine (newEnv_ok_iff hl (Nat.le_refl _) fun m e k hmem _ => ?_).mpr
    ⟨fun m e k l' hmem hk hl' hs => ?_, fun hu => ?_⟩
  · obtain ⟨-, rfl, -⟩ := hfirst m e k hmem
    exact ⟨_, hl⟩
  · obtain ⟨rfl, rfl, rfl⟩ := hfirst m e k hmem
    obtain ⟨q', hq', hc, -⟩ := (asserts_iff hl' (Nat.le_refl _) stackSector).mpr ⟨hs, hk⟩
    rw [hq] at hq'
    cases hq'
    exact hno hc
  · exact absurd hu.empty (by decide)

/-- An ENV of 4080 bytes fits into an empty sector to the last byte, but none takes it. -/
theorem newEnv_asserts : ¬ ∀ (n : Nat) (stack sector : SectorMeta) (ef : Ef) (envSize : Nat)
    (l : List Sector), envAreaSize ≤ n → Area ef.flash l →
    NewEnvOk n stack sector ef envSize l := by
  intro h
  have hl : Area formattedEf.flash (List.replicate sectorNum emptySector) := formatArea_area _
  have hok := h envAreaSize stackSector stackSector formattedEf 4080 _ (Nat.le_refl _) hl
  refine hok.asserts stackSector formattedEf 4080 (mem_bind_left List.mem_cons_self)
    ((asserts_iff hl (Nat.le_refl _) stackSector).mpr ⟨⟨by decide, ?_, fun _ => ?_⟩, by decide⟩)
  · intro s hs hst
    obtain rfl := List.eq_of_mem_replicate hs
    cases hst
  · intro s hs _ ht
    obtain rfl := List.eq_of_mem_replicate hs
    exact absurd ht.1 (by decide)

end Tudu.Flash
